import Mathlib.Data.List.Induction
import Unpeel.Foundation.Transducers

/-! # Submissions and cancellations in the typed input

`InputTracker` sees every byte that was typed into a Session. It records when the user submits
or cancels, and tells keys from the bytes of escape sequences and of pasted text.
-/
namespace Unpeel.Activity
open Transducers List

def escapeSettleMs : ℕ := 150

def escapeKey : UInt8 := 0x1b
def pasteParameters : List UInt8 := [0x32,0x30,0x30]

/-- `ESC[201~`. -/
def pasteEnd : List UInt8 := [0x1b,0x5b,0x32,0x30,0x31,0x7e]

inductive InputState where
  | plain
  | escape (at' : ℕ) (allowed : Bool)
  | csi (parameters : List UInt8) (allowed : Bool)
  | ss3
  | string
  | stringEscape
  | paste (matched : ℕ)
deriving DecidableEq

structure InputTracker where
  state : InputState
  generation : ℕ
  cancelledAt : Option ℕ
  submittedAt : Option ℕ
deriving DecidableEq

inductive InputRecord where
  | cancelled (at' : ℕ)
  | submitted (now : ℕ)
deriving DecidableEq

/-- A byte with the time and the menu of its feed; `settle` is a query after the settling time. -/
inductive Typed where
  | key (byte : UInt8) (now : ℕ) (menuActive : Bool)
  | settle
  | restart
deriving DecidableEq

namespace InputState

def isFinal (byte : UInt8) : Bool := 0x40 ≤ byte && byte ≤ 0x7e

/-- `]`, `P`, `_`, `^` and `X`. -/
def introducers : List UInt8 := [0x5d,0x50,0x5f,0x5e,0x58]

def pressOf (digits : List UInt8) : List (List UInt8) :=
  [digits,digits ++ [0x3b,0x31],digits ++ [0x3b,0x31,0x3a,0x31],digits ++ [0x3b,0x31,0x3a,0x32]]

def kittyRecords (parameters : List UInt8) (byte : UInt8) (allowed : Bool) (now : ℕ) : List InputRecord :=
  if byte = 0x75 ∧ allowed then
    if parameters ∈ pressOf [0x32,0x37] then [.cancelled now]
    else if parameters ∈ pressOf [0x31,0x33] then [.submitted now]
    else []
  else []

/-- One turn of the loop of `feed`. -/
def next (state : InputState) (byte : UInt8) (now : ℕ) (menuActive : Bool) : InputState × List InputRecord :=
  match state with
  | .plain =>
    if byte = escapeKey then (.escape now (!menuActive),[])
    else if byte = 0x0d ∨ byte = 0x0a then (.plain,[.submitted now])
    else (.plain,[])
  | .escape time allowed =>
    if byte = 0x5b then (.csi [] allowed,[])
    else if byte = 0x4f then (.ss3,[])
    else if byte ∈ introducers then (.string,[])
    else if byte = escapeKey then (.escape now (!menuActive),if allowed then [.cancelled time] else [])
    else (.plain,[])
  | .csi parameters allowed =>
    if isFinal byte then
      if byte = 0x7e ∧ parameters = pasteParameters then (.paste 0,[])
      else (.plain,kittyRecords parameters byte allowed now)
    else (.csi (if parameters.length < 64 then parameters ++ [byte] else parameters) allowed,[])
  | .ss3 => (.plain,[])
  | .string => if byte = 7 then (.plain,[]) else if byte = escapeKey then (.stringEscape,[]) else (.string,[])
  | .stringEscape => if byte = 0x5c then (.plain,[]) else (.string,[])
  | .paste matched =>
    let matched :=
      if pasteEnd[matched]? = some byte then matched + 1 else if byte = escapeKey then 1 else 0
    if matched = pasteEnd.length then (.plain,[]) else (.paste matched,[])

def settled (state : InputState) : InputState × List InputRecord :=
  match state with
  | .escape time allowed => (.plain,if allowed then [.cancelled time] else [])
  | state => (state,[])

def step (state : InputState) : Typed → InputState × List InputRecord
  | .key byte now menuActive => state.next byte now menuActive
  | .settle => state.settled
  | .restart => (.plain,[])

end InputState

namespace InputTracker

def default : InputTracker := ⟨.plain,0,none,none⟩

def noteCancel (t : InputTracker) (time : ℕ) : InputTracker :=
  { t with cancelledAt := some time, submittedAt := t.submittedAt.filter (time < ·) }

def record (t : InputTracker) : InputRecord → InputTracker
  | .cancelled time => t.noteCancel time
  | .submitted now => { t with submittedAt := some (t.submittedAt.getD now) }

def advance (t : InputTracker) (result : InputState × List InputRecord) : InputTracker :=
  result.2.foldl record { t with state := result.1 }

def ofGeneration (t : InputTracker) (generation : ℕ) : InputTracker :=
  if t.generation = generation then t else { default with generation }

def feed (t : InputTracker) (bytes : List UInt8) (generation now : ℕ) (menuActive : Bool) : InputTracker :=
  bytes.foldl (fun t byte => t.advance (t.state.next byte now menuActive)) (t.ofGeneration generation)

def settles (t : InputTracker) (now : ℕ) : Bool :=
  match t.state with
  | .escape time _ => escapeSettleMs ≤ now - time
  | _ => false

def settle (t : InputTracker) (now : ℕ) : InputTracker := if t.settles now then t.advance t.state.settled else t

def takePending (t : InputTracker) (now : ℕ) : InputTracker × ℕ × Option ℕ × Option ℕ :=
  let t := t.settle now
  ({ t with cancelledAt := none, submittedAt := none },t.generation,t.cancelledAt,t.submittedAt)

end InputTracker

namespace InputState
section Grammar

def keyOf : Typed → Option UInt8
  | .key byte _ _ => some byte
  | .settle => none
  | .restart => none

def bytesOf (typed : List Typed) : List UInt8 := typed.filterMap keyOf

def Settles (typed : List Typed) : Prop := ∀ t ∈ typed, t = .settle

def WithoutRestart (typed : List Typed) : Prop := ∀ t ∈ typed, t ≠ .restart

/-- What a control sequence has between `ESC [` and its final byte. -/
def Parameters (typed : List Typed) : Prop := WithoutRestart typed ∧ ∀ b ∈ bytesOf typed, isFinal b = false

inductive StringBody : List Typed → Prop
  | nil : StringBody []
  | settle {rest : List Typed} : StringBody rest → StringBody (.settle :: rest)
  | plain {rest : List Typed} (b : UInt8) (now : ℕ) (menu : Bool) : b ≠ 7 → b ≠ escapeKey → StringBody rest →
      StringBody (.key b now menu :: rest)
  | escaped {settles rest : List Typed} (b : UInt8) (now now' : ℕ) (menu menu' : Bool) : Settles settles → b ≠ 0x5c →
      StringBody rest → StringBody (.key escapeKey now menu :: settles ++ .key b now' menu' :: rest)

/-- `[200~`, and pasted text that its terminator does not end. -/
def Pasting (opened content : List Typed) : Prop :=
  ∃ (head : List Typed) (now now' : ℕ) (menu menu' : Bool),
    opened = .key 0x5b now menu :: (head ++ .key 0x7e now' menu' :: content) ∧ Parameters head ∧
      bytesOf head = pasteParameters ∧ WithoutRestart content ∧ ¬ pasteEnd <:+: bytesOf content

inductive KeyEnd where
  | rest
  | pending
  | pasting
deriving DecidableEq

inductive Ends : KeyEnd → List Typed → Prop
  | nil : Ends .rest []
  | restart (typed : List Typed) : Ends .rest (typed ++ [.restart])
  | idle {typed : List Typed} : Ends .rest typed → Ends .rest (typed ++ [.settle])
  | key {typed : List Typed} (b : UInt8) (now : ℕ) (menu : Bool) : Ends .rest typed → b ≠ escapeKey →
      Ends .rest (typed ++ [.key b now menu])
  | escape {typed : List Typed} (now : ℕ) (menu : Bool) : Ends .rest typed →
      Ends .pending (typed ++ [.key escapeKey now menu])
  | again {typed : List Typed} (now : ℕ) (menu : Bool) : Ends .pending typed →
      Ends .pending (typed ++ [.key escapeKey now menu])
  | alone {typed : List Typed} : Ends .pending typed → Ends .rest (typed ++ [.settle])
  | alt {typed : List Typed} (b : UInt8) (now : ℕ) (menu : Bool) : Ends .pending typed → b ≠ escapeKey → b ≠ 0x5b →
      b ≠ 0x4f → b ∉ introducers → Ends .rest (typed ++ [.key b now menu])
  | control {typed rest : List Typed} (b : UInt8) (now now' : ℕ) (menu menu' : Bool) : Ends .pending typed →
      Parameters rest → isFinal b = true → ¬ (b = 0x7e ∧ bytesOf rest = pasteParameters) →
      Ends .rest (typed ++ .key 0x5b now menu :: rest ++ [.key b now' menu'])
  | ss3 {typed rest : List Typed} (b : UInt8) (now now' : ℕ) (menu menu' : Bool) : Ends .pending typed → Settles rest →
      Ends .rest (typed ++ .key 0x4f now menu :: rest ++ [.key b now' menu'])
  | bel {typed rest : List Typed} (b : UInt8) (now now' : ℕ) (menu menu' : Bool) : Ends .pending typed → b ∈ introducers →
      StringBody rest → Ends .rest (typed ++ .key b now menu :: rest ++ [.key 7 now' menu'])
  | st {typed rest settles : List Typed} (b : UInt8) (now now' now'' : ℕ) (menu menu' menu'' : Bool) : Ends .pending typed →
      b ∈ introducers → StringBody rest → Settles settles →
      Ends .rest (typed ++ .key b now menu :: (rest ++ .key escapeKey now' menu' :: settles) ++ [.key 0x5c now'' menu''])
  | pasting {typed opened content : List Typed} : Ends .pending typed → Pasting opened content → Ends .pasting (typed ++ opened)
  | pasted {typed opened content : List Typed} (b : UInt8) (now : ℕ) (menu : Bool) : Ends .pending typed →
      Pasting opened content → pasteEnd <:+ bytesOf content ++ [b] → Ends .rest (typed ++ opened ++ [.key b now menu])

end Grammar

section Terminator
variable {x : List UInt8} {m : ℕ}

structure Matched (x : List UInt8) (m : ℕ) : Prop where
  suffix : pasteEnd.take m <:+ x
  le : m ≤ 5
  greatest : ∀ k ≤ 5, pasteEnd.take k <:+ x → k ≤ m

theorem matched_nil : Matched [] 0 where
  suffix := nil_suffix
  le := Nat.zero_le _
  greatest := fun k hk h => by
    have hnil := List.suffix_nil.mp h
    have hlength := congrArg List.length hnil
    rw [length_take] at hlength
    simp [pasteEnd] at hlength
    omega

theorem snoc_suffix_snoc {start : List UInt8} {a b : UInt8} : start ++ [a] <:+ x ++ [b] ↔ start <:+ x ∧ a = b := by
  constructor
  · rintro ⟨before,h⟩
    rw [← append_assoc] at h
    obtain ⟨hx,hb⟩ := append_inj' h rfl
    exact ⟨⟨before,hx⟩,by simpa using hb⟩
  · rintro ⟨⟨before,rfl⟩,rfl⟩
    exact ⟨before,by simp⟩

theorem take_succ_suffix {k : ℕ} (hk : k < 6) {b : UInt8} :
    pasteEnd.take (k + 1) <:+ x ++ [b] ↔ pasteEnd.take k <:+ x ∧ pasteEnd[k]? = some b := by
  have hlt : k < pasteEnd.length := hk
  rw [take_succ_eq_append_getElem hlt, snoc_suffix_snoc, getElem?_eq_getElem hlt, Option.some.injEq]

theorem no_border : ∀ m ≤ 5, ∀ j < m, 1 ≤ j → ¬ pasteEnd.take j <:+ pasteEnd.take m := by decide

theorem only_first_escape : ∀ m < 6, pasteEnd[m]? = some escapeKey → m = 0 := by decide

/-- The next byte of pasted text. -/
theorem Matched.step (h : Matched x m) (b : UInt8) :
    (pasteEnd <:+ x ++ [b] ∧ pasteEnd[m]? = some b ∧ m = 5) ∨
      (¬ pasteEnd <:+ x ++ [b] ∧ ∃ m', Matched (x ++ [b]) m' ∧ m' ≠ 6 ∧
        m' = if pasteEnd[m]? = some b then m + 1 else if b = escapeKey then 1 else 0) := by
  have hle := h.le
  have hall : pasteEnd <:+ x ++ [b] ↔ pasteEnd.take 5 <:+ x ∧ pasteEnd[5]? = some b :=
    take_succ_suffix (x := x) (k := 5) (b := b) (by decide)
  by_cases hend : pasteEnd <:+ x ++ [b]
  · obtain ⟨hfive,hlast⟩ := hall.mp hend
    obtain rfl : m = 5 := Nat.le_antisymm hle (h.greatest 5 (Nat.le_refl _) hfive)
    exact .inl ⟨hend,hlast,rfl⟩
  · have hnotLast : pasteEnd[m]? = some b → m ≠ 5 := by
      rintro hnext rfl
      exact hend (hall.mpr ⟨h.suffix,hnext⟩)
    refine .inr ⟨hend,_,?_,?_,rfl⟩
    · split_ifs with hnext hesc
      · have hfour := hnotLast hnext
        refine ⟨(take_succ_suffix (by omega)).mpr ⟨h.suffix,hnext⟩,by omega,fun k hk hsuffix => ?_⟩
        cases k with
        | zero => exact Nat.zero_le _
        | succ k =>
          have hbefore := (take_succ_suffix (by omega)).mp hsuffix
          exact Nat.succ_le_succ (h.greatest k (by omega) hbefore.1)
      · subst hesc
        refine ⟨(take_succ_suffix (by decide)).mpr ⟨nil_suffix,rfl⟩,by decide,fun k hk hsuffix => ?_⟩
        cases k with
        | zero => exact Nat.zero_le _
        | succ k =>
          have hbefore := (take_succ_suffix (by omega)).mp hsuffix
          have hzero := only_first_escape k (by omega) hbefore.2
          omega
      · refine ⟨nil_suffix,Nat.zero_le _,fun k hk hsuffix => ?_⟩
        cases k with
        | zero => exact Nat.le_refl _
        | succ k =>
          obtain ⟨hbefore,hbyte⟩ := (take_succ_suffix (by omega)).mp hsuffix
          have hkm := h.greatest k (by omega) hbefore
          rcases Nat.lt_or_eq_of_le hkm with hlt | rfl
          · cases k with
            | zero => exact absurd (Option.some.inj hbyte).symm hesc
            | succ k =>
              have hinside := suffix_of_suffix_length_le hbefore h.suffix (by rw [length_take, length_take]; omega)
              exact absurd hinside (no_border m hle (k + 1) hlt (Nat.le_add_left _ _))
          · exact absurd hbyte hnext
    · split_ifs with hnext hesc
      · have hfour := hnotLast hnext
        omega
      · decide
      · decide

end Terminator
section Runs
variable {s : InputState} {rest typed : List Typed}
variable {opened content : List Typed}

def runFrom (s : InputState) (typed : List Typed) : InputState := (feed step s typed).1

theorem runFrom_append (s : InputState) (typed more : List Typed) :
    runFrom s (typed ++ more) = runFrom (runFrom s typed) more := by
  rw [runFrom, feed_append]
  rfl

theorem runFrom_cons (s : InputState) (t : Typed) (typed : List Typed) : runFrom s (t :: typed) = runFrom (s.step t).1 typed := rfl

theorem runFrom_snoc (s : InputState) (typed : List Typed) (t : Typed) :
    runFrom s (typed ++ [t]) = ((runFrom s typed).step t).1 := runFrom_append s typed [t]

@[simp] theorem bytesOf_append (typed more : List Typed) : bytesOf (typed ++ more) = bytesOf typed ++ bytesOf more := by
  simp [bytesOf]

@[simp] theorem bytesOf_key (b : UInt8) (now : ℕ) (menu : Bool) (typed : List Typed) :
    bytesOf (.key b now menu :: typed) = b :: bytesOf typed := rfl

theorem bytesOf_snoc_key (typed : List Typed) (b : UInt8) (now : ℕ) (menu : Bool) :
    bytesOf (typed ++ [.key b now menu]) = bytesOf typed ++ [b] := bytesOf_append _ _

theorem bytesOf_snoc_settle (typed : List Typed) : bytesOf (typed ++ [.settle]) = bytesOf typed := by
  rw [bytesOf_append]
  exact append_nil _

theorem step_introducer {time now : ℕ} {allowed menu : Bool} {b : UInt8} (hb : b ∈ introducers) :
    ((InputState.escape time allowed).step (.key b now menu)).1 = .string := by
  have hall : ∀ b ∈ introducers, b ≠ 0x5b ∧ b ≠ 0x4f := by simp [introducers]
  obtain ⟨hcsi,hss3⟩ := hall b hb
  simp only [step, next, hcsi, hss3, hb, if_false, if_true]

theorem run_settles (hs : s.settled.1 = s) (h : Settles typed) : runFrom s typed = s := by
  induction typed with
  | nil => rfl
  | cons t typed ih =>
    obtain rfl := h t (mem_cons_self ..)
    change runFrom s.settled.1 typed = s
    rw [hs]
    exact ih fun t ht => h t (mem_cons_of_mem _ ht)

theorem take_snoc (ps : List UInt8) (b : UInt8) :
    (if (ps.take 64).length < 64 then ps.take 64 ++ [b] else ps.take 64) = (ps ++ [b]).take 64 := by
  rw [take_append]
  split_ifs with h
  · rw [length_take] at h
    rw [take_of_length_le (l := [b]) (by simp; omega)]
  · rw [length_take] at h
    have hfull : 64 - ps.length = 0 := by omega
    rw [hfull, take_zero, append_nil]

theorem take_eq_parameters (x : List UInt8) : x.take 64 = pasteParameters ↔ x = pasteParameters := by
  constructor
  · intro h
    have hlength := congrArg List.length h
    rw [length_take] at hlength
    have hshort : x.length ≤ 64 := by
      simp only [pasteParameters, length_cons, length_nil] at hlength
      omega
    rwa [take_of_length_le hshort] at h
  · rintro rfl
    rfl

theorem run_parameters (ps : List UInt8) (allowed : Bool) (h : Parameters typed) :
    runFrom (.csi (ps.take 64) allowed) typed = .csi ((ps ++ bytesOf typed).take 64) allowed := by
  induction typed generalizing ps with
  | nil => simp [runFrom, feed, bytesOf]
  | cons t typed ih =>
    have hrest (hb : ∀ b ∈ bytesOf typed, isFinal b = false) : Parameters typed :=
      ⟨fun t ht => h.1 t (mem_cons_of_mem _ ht),hb⟩
    cases t with
    | settle => exact ih ps (hrest h.2)
    | restart => exact absurd rfl (h.1 _ (mem_cons_self ..))
    | key b now menu =>
      have hb := h.2 b (mem_cons_self ..)
      have hnext := ih (ps ++ [b]) (hrest fun c hc => h.2 c (mem_cons_of_mem _ hc))
      rw [runFrom_cons]
      simp only [step, next, hb, take_snoc]
      simpa using hnext

theorem run_string (h : StringBody typed) : runFrom .string typed = .string := by
  induction h with
  | nil => rfl
  | settle _ ih => exact ih
  | plain b now menu hbel hesc _ ih =>
    rw [runFrom_cons]
    simpa [step, next, hbel, hesc] using ih
  | @escaped settles rest b now now' menu menu' hsettles hst _ ih =>
    have hescape : (InputState.string.step (.key escapeKey now menu)).1 = .stringEscape := rfl
    rw [cons_append, runFrom_cons, hescape, runFrom_append, run_settles rfl hsettles, runFrom_cons]
    simpa [step, next, hst] using ih

/-- Pasted text records nothing. -/
theorem run_paste (hrestart : WithoutRestart typed) (hend : ¬ pasteEnd <:+: bytesOf typed) :
    (feed step (.paste 0) typed).2 = [] ∧ ∃ m, runFrom (.paste 0) typed = .paste m ∧ Matched (bytesOf typed) m := by
  induction typed using List.reverseRecOn with
  | nil => exact ⟨rfl,0,rfl,matched_nil⟩
  | append_singleton typed t ih =>
    have hbefore : ¬ pasteEnd <:+: bytesOf typed := fun hno => hend (by
      rw [bytesOf_append]
      exact hno.trans (prefix_append _ _).isInfix)
    obtain ⟨hquiet,m,hrun,hmatched⟩ := ih (fun t ht => hrestart t (mem_append_left _ ht)) hbefore
    have hstate : (feed step (.paste 0) typed).1 = .paste m := hrun
    rw [runFrom_snoc, hrun, feed_append, hstate, hquiet]
    cases t with
    | settle =>
      rw [bytesOf_snoc_settle]
      exact ⟨rfl,m,rfl,hmatched⟩
    | restart => exact absurd rfl (hrestart .restart (mem_append_right _ (mem_singleton_self _)))
    | key b now menu =>
      rw [bytesOf_snoc_key] at hend ⊢
      rcases hmatched.step b with ⟨hyes,-⟩ | ⟨-,m',hmatched',hne,hm'⟩
      · exact absurd hyes.isInfix hend
      · have hnext : (InputState.paste m).next b now menu = (.paste m',[]) := by
          simp only [InputState.next]
          rw [← hm']
          exact if_neg hne
        refine ⟨?_,m',?_,hmatched'⟩
        · simp [feed, step, hnext]
        · simp [step, hnext]

def Leads : KeyEnd → InputState → Prop
  | .rest,s => s = .plain
  | .pending,s => ∃ time allowed, s = .escape time allowed
  | .pasting,s => ∃ m, s = .paste m

theorem run_pasting (time : ℕ) (allowed : Bool) (h : Pasting opened content) :
    ∃ m, runFrom (.escape time allowed) opened = .paste m ∧ Matched (bytesOf content) m := by
  obtain ⟨head,now,now',menu,menu',rfl,hhead,hparameters,hrestart,hend⟩ := h
  obtain ⟨-,m,hrun,hmatched⟩ := run_paste hrestart hend
  refine ⟨m,?_,hmatched⟩
  have hcsi : ((InputState.escape time allowed).step (.key 0x5b now menu)).1 = .csi (List.take 64 []) allowed := rfl
  have hstart : ((InputState.csi (pasteParameters.take 64) allowed).step (.key 0x7e now' menu')).1 = .paste 0 := rfl
  rw [runFrom_cons, hcsi, runFrom_append, run_parameters [] allowed hhead, nil_append, hparameters, runFrom_cons, hstart, hrun]

/-- Each sequence leads back to the plain state. -/
theorem leads_of_ends {e : KeyEnd} (h : Ends e typed) : Leads e (runFrom .plain typed) := by
  induction h with
  | nil => rfl
  | restart typed =>
    rw [runFrom_snoc]
    rfl
  | idle _ ih =>
    rw [runFrom_snoc, show runFrom .plain _ = _ from ih]
    rfl
  | key b now menu _ hb ih =>
    rw [runFrom_snoc, show runFrom .plain _ = _ from ih]
    simp only [Leads, step, next, hb, if_false]
    split_ifs <;> rfl
  | escape now menu _ ih =>
    rw [runFrom_snoc, show runFrom .plain _ = _ from ih]
    exact ⟨now,!menu,rfl⟩
  | again now menu _ ih =>
    obtain ⟨time,allowed,ih⟩ := ih
    rw [runFrom_snoc, ih]
    exact ⟨now,!menu,rfl⟩
  | alone _ ih =>
    obtain ⟨time,allowed,ih⟩ := ih
    rw [runFrom_snoc, ih]
    rfl
  | alt b now menu _ hesc hcsi hss3 hstring ih =>
    obtain ⟨time,allowed,ih⟩ := ih
    rw [runFrom_snoc, ih]
    simp only [Leads, step, next, hesc, hcsi, hss3, hstring, if_false]
  | @control typed rest b now now' menu menu' _ hrest hfinal hpaste ih =>
    obtain ⟨time,allowed,ih⟩ := ih
    have hcsi : ((InputState.escape time allowed).step (.key 0x5b now menu)).1 = .csi (List.take 64 []) allowed := rfl
    rw [runFrom_snoc, runFrom_append, ih, runFrom_cons, hcsi, run_parameters [] allowed hrest, nil_append]
    simp only [Leads, step, next, hfinal, if_true]
    rw [if_neg]
    rwa [take_eq_parameters]
  | @ss3 typed rest b now now' menu menu' _ hrest ih =>
    obtain ⟨time,allowed,ih⟩ := ih
    have hss3 : ((InputState.escape time allowed).step (.key 0x4f now menu)).1 = .ss3 := rfl
    rw [runFrom_snoc, runFrom_append, ih, runFrom_cons, hss3, run_settles rfl hrest]
    rfl
  | @bel typed rest b now now' menu menu' _ hb hrest ih =>
    obtain ⟨time,allowed,ih⟩ := ih
    rw [runFrom_snoc, runFrom_append, ih, runFrom_cons, step_introducer hb, run_string hrest]
    rfl
  | @st typed rest settles b now now' now'' menu menu' menu'' _ hb hrest hsettles ih =>
    obtain ⟨time,allowed,ih⟩ := ih
    have hescape : (InputState.string.step (.key escapeKey now' menu')).1 = .stringEscape := rfl
    rw [runFrom_snoc, runFrom_append, ih, runFrom_cons, step_introducer hb, runFrom_append, run_string hrest, runFrom_cons,
      hescape, run_settles rfl hsettles]
    rfl
  | pasting _ hopened ih =>
    obtain ⟨time,allowed,ih⟩ := ih
    obtain ⟨m,hrun,-⟩ := run_pasting time allowed hopened
    rw [runFrom_append, ih, hrun]
    exact ⟨m,rfl⟩
  | pasted b now menu _ hopened hend ih =>
    obtain ⟨time,allowed,ih⟩ := ih
    obtain ⟨m,hrun,hmatched⟩ := run_pasting time allowed hopened
    rw [runFrom_snoc, runFrom_append, ih, hrun]
    rcases hmatched.step b with ⟨-,hlast,rfl⟩ | ⟨hno,-⟩
    · simp only [Leads, step, next]
      rw [if_pos hlast]
      rfl
    · exact absurd hend hno

def Came (typed : List Typed) : InputState → Prop
  | .plain => Ends .rest typed
  | .escape _ _ => Ends .pending typed
  | .csi parameters _ => ∃ before rest now menu, typed = before ++ .key 0x5b now menu :: rest ∧ Ends .pending before ∧
      Parameters rest ∧ parameters = (bytesOf rest).take 64
  | .ss3 => ∃ before rest now menu, typed = before ++ .key 0x4f now menu :: rest ∧ Ends .pending before ∧ Settles rest
  | .string => ∃ before b rest now menu, typed = before ++ .key b now menu :: rest ∧ Ends .pending before ∧
      b ∈ introducers ∧ StringBody rest
  | .stringEscape => ∃ before b rest now menu now' menu' settles,
      typed = before ++ .key b now menu :: (rest ++ .key escapeKey now' menu' :: settles) ∧ Ends .pending before ∧
      b ∈ introducers ∧ StringBody rest ∧ Settles settles
  | .paste m => ∃ before opened content, typed = before ++ opened ∧ Ends .pending before ∧ Pasting opened content ∧
      Matched (bytesOf content) m

theorem StringBody.append {more : List Typed} (h : StringBody typed) (hmore : StringBody more) : StringBody (typed ++ more) := by
  induction h with
  | nil => exact hmore
  | settle _ ih => exact .settle ih
  | plain b now menu hbel hesc _ ih => exact .plain b now menu hbel hesc ih
  | escaped b now now' menu menu' hsettles hst _ ih =>
    rw [append_assoc]
    exact .escaped b now now' menu menu' hsettles hst ih

theorem Settles.snoc (h : Settles typed) : Settles (typed ++ [.settle]) := by
  intro t ht
  rcases mem_append.mp ht with ht | ht
  · exact h t ht
  · exact mem_singleton.mp ht

theorem Parameters.snoc {t : Typed} (h : Parameters typed) (hrestart : t ≠ .restart) (ht : ∀ b, keyOf t = some b → isFinal b = false) :
    Parameters (typed ++ [t]) := by
  constructor
  · intro u hu
    rcases mem_append.mp hu with hu | hu
    · exact h.1 u hu
    · exact mem_singleton.mp hu ▸ hrestart
  · intro b hb
    rw [bytesOf_append] at hb
    rcases mem_append.mp hb with hb | hb
    · exact h.2 b hb
    · obtain ⟨u,hu,hub⟩ := mem_filterMap.mp hb
      exact ht b (mem_singleton.mp hu ▸ hub)

theorem Pasting.notEnded (h : Pasting opened content) : ¬ pasteEnd <:+: bytesOf content := by
  obtain ⟨-,-,-,-,-,-,-,-,-,hend⟩ := h
  exact hend

theorem Pasting.snoc {t : Typed} (h : Pasting opened content) (hrestart : t ≠ .restart)
    (hend : ¬ pasteEnd <:+: bytesOf (content ++ [t])) : Pasting (opened ++ [t]) (content ++ [t]) := by
  obtain ⟨head,now,now',menu,menu',rfl,hhead,hparameters,hcontent,-⟩ := h
  refine ⟨head,now,now',menu,menu',by simp,hhead,hparameters,fun u hu => ?_,hend⟩
  rcases mem_append.mp hu with hu | hu
  · exact hcontent u hu
  · exact mem_singleton.mp hu ▸ hrestart

theorem not_infix_snoc {x : List UInt8} {b : UInt8} (h : ¬ pasteEnd <:+: x) (hend : ¬ pasteEnd <:+ x ++ [b]) :
    ¬ pasteEnd <:+: x ++ [b] := by
  rintro ⟨before,after,hx⟩
  rcases eq_nil_or_concat' after with rfl | ⟨after,c,rfl⟩
  · exact hend ⟨before,by simpa using hx⟩
  · rw [← append_assoc] at hx
    exact h ⟨before,after,(append_inj' hx rfl).1⟩

/-- Each byte. -/
theorem came_key (h : Came typed s) (b : UInt8) (now : ℕ) (menu : Bool) :
    Came (typed ++ [.key b now menu]) (s.next b now menu).1 := by
  cases s with
  | plain =>
    simp only [InputState.next]
    split_ifs with hesc hsubmit
    · subst hesc
      exact .escape now menu h
    · exact .key b now menu h hesc
    · exact .key b now menu h hesc
  | escape time allowed =>
    simp only [InputState.next]
    split_ifs with hcsi hss3 hstring hesc hallowed
    · subst hcsi
      exact ⟨typed,[],now,menu,rfl,h,⟨nofun,nofun⟩,rfl⟩
    · subst hss3
      exact ⟨typed,[],now,menu,rfl,h,nofun⟩
    · exact ⟨typed,b,[],now,menu,rfl,h,hstring,.nil⟩
    · subst hesc
      exact .again now menu h
    · subst hesc
      exact .again now menu h
    · exact .alt b now menu h hesc hcsi hss3 hstring
  | csi parameters allowed =>
    obtain ⟨before,rest,now',menu',rfl,hbefore,hrest,rfl⟩ := h
    simp only [next, take_snoc]
    split_ifs with hfinal hpaste
    · obtain ⟨rfl,hparameters⟩ := hpaste
      refine ⟨before,.key 0x5b now' menu' :: (rest ++ [.key 0x7e now menu]),[],by simp,hbefore,?_,matched_nil⟩
      exact ⟨rest,now',now,menu',menu,rfl,hrest,(take_eq_parameters _).mp hparameters,nofun,by decide⟩
    · rw [take_eq_parameters] at hpaste
      exact .control b now' now menu' menu hbefore hrest hfinal hpaste
    · refine ⟨before,rest ++ [.key b now menu],now',menu',by simp,hbefore,hrest.snoc Typed.noConfusion ?_,?_⟩
      · rintro _ ⟨⟩
        exact Bool.not_eq_true _ ▸ hfinal
      · rw [bytesOf_snoc_key]
  | ss3 =>
    obtain ⟨before,rest,now',menu',rfl,hbefore,hrest⟩ := h
    exact .ss3 b now' now menu' menu hbefore hrest
  | string =>
    obtain ⟨before,c,rest,now',menu',rfl,hbefore,hc,hrest⟩ := h
    simp only [InputState.next]
    split_ifs with hbel hesc
    · subst hbel
      exact .bel c now' now menu' menu hbefore hc hrest
    · subst hesc
      exact ⟨before,c,rest,now',menu',now,menu,[],by simp,hbefore,hc,hrest,nofun⟩
    · exact ⟨before,c,rest ++ [.key b now menu],now',menu',by simp,hbefore,hc,hrest.append (.plain b now menu hbel hesc .nil)⟩
  | stringEscape =>
    obtain ⟨before,c,rest,now',menu',now'',menu'',settles,rfl,hbefore,hc,hrest,hsettles⟩ := h
    simp only [InputState.next]
    split_ifs with hst
    · subst hst
      exact .st c now' now'' now menu' menu'' menu hbefore hc hrest hsettles
    · exact ⟨before,c,rest ++ (.key escapeKey now'' menu'' :: settles ++ [.key b now menu]),now',menu',by simp,hbefore,hc,
        hrest.append (.escaped b now'' now menu'' menu hsettles hst .nil)⟩
  | paste m =>
    obtain ⟨before,opened,content,rfl,hbefore,hopened,hmatched⟩ := h
    rcases hmatched.step b with ⟨hend,hlast,rfl⟩ | ⟨hno,m',hmatched',hne,hm'⟩
    · simp only [next]
      rw [if_pos hlast]
      exact .pasted b now menu hbefore hopened hend
    · simp only [next]
      have hmore : ¬ m' = pasteEnd.length := hne
      rw [← hm', if_neg hmore]
      rw [← bytesOf_snoc_key content b now menu] at hmatched'
      have hend : ¬ pasteEnd <:+: bytesOf (content ++ [.key b now menu]) := by
        rw [bytesOf_snoc_key]
        exact not_infix_snoc hopened.notEnded hno
      exact ⟨before,opened ++ [.key b now menu],content ++ [.key b now menu],by simp,hbefore,
        hopened.snoc Typed.noConfusion hend,hmatched'⟩

/-- Each step. -/
theorem came_step (h : Came typed s) (t : Typed) : Came (typed ++ [t]) (s.step t).1 := by
  cases t with
  | restart => exact .restart typed
  | settle =>
    cases s with
    | plain => exact .idle h
    | escape time allowed => exact .alone h
    | csi parameters allowed =>
      obtain ⟨before,rest,now,menu,rfl,hbefore,hrest,hparameters⟩ := h
      refine ⟨before,rest ++ [.settle],now,menu,by simp,hbefore,hrest.snoc nofun nofun,?_⟩
      rw [hparameters, bytesOf_snoc_settle]
    | ss3 =>
      obtain ⟨before,rest,now,menu,rfl,hbefore,hrest⟩ := h
      exact ⟨before,rest ++ [.settle],now,menu,by simp,hbefore,hrest.snoc⟩
    | string =>
      obtain ⟨before,b,rest,now,menu,rfl,hbefore,hb,hrest⟩ := h
      exact ⟨before,b,rest ++ [.settle],now,menu,by simp,hbefore,hb,hrest.append (.settle .nil)⟩
    | stringEscape =>
      obtain ⟨before,b,rest,now,menu,now',menu',settles,rfl,hbefore,hb,hrest,hsettles⟩ := h
      exact ⟨before,b,rest,now,menu,now',menu',settles ++ [.settle],by simp,hbefore,hb,hrest,hsettles.snoc⟩
    | paste m =>
      obtain ⟨before,opened,content,rfl,hbefore,hopened,hmatched⟩ := h
      have hend := hopened.notEnded
      rw [← bytesOf_snoc_settle] at hend hmatched
      exact ⟨before,opened ++ [.settle],content ++ [.settle],by simp,hbefore,hopened.snoc Typed.noConfusion hend,hmatched⟩
  | key b now menu => exact came_key h b now menu

theorem came_run (typed : List Typed) : Came typed (runFrom .plain typed) := by
  induction typed using List.reverseRecOn with
  | nil => exact .nil
  | append_singleton typed t ih =>
    rw [runFrom_snoc]
    exact came_step ih t

/-- The grammar says in which state the input ends. -/
theorem leads_iff (e : KeyEnd) (typed : List Typed) : Leads e (runFrom .plain typed) ↔ Ends e typed := by
  constructor
  · intro h
    have hcame := came_run typed
    cases e with
    | rest =>
      rw [show runFrom .plain typed = .plain from h] at hcame
      exact hcame
    | pending =>
      obtain ⟨time,allowed,hstate⟩ := h
      rw [hstate] at hcame
      exact hcame
    | pasting =>
      obtain ⟨m,hstate⟩ := h
      rw [hstate] at hcame
      obtain ⟨before,opened,content,rfl,hbefore,hopened,-⟩ := hcame
      exact .pasting hbefore hopened
  · exact leads_of_ends

end Runs
end InputState

open InputState

inductive InputAction where
  | feed (bytes : List UInt8) (generation now : ℕ) (menuActive : Bool)
  | take (now : ℕ)

namespace InputAction

def bytes : InputAction → List UInt8
  | .feed bytes _ _ _ => bytes
  | .take _ => []

def OfGeneration (generation : ℕ) : InputAction → Prop
  | .feed _ g _ _ => g = generation
  | .take _ => True

end InputAction

def inputBytes (actions : List InputAction) : List UInt8 := actions.flatMap InputAction.bytes

/-- The actions as typed input: a query settles a pending Escape if the last byte is old enough, and another generation
starts over. -/
def typedOf (generation last : ℕ) : List InputAction → List Typed
  | [] => []
  | .feed bytes g now menuActive :: actions =>
    (if generation = g then [] else [.restart]) ++ bytes.map (.key · now menuActive) ++
      typedOf g (if bytes = [] then last else now) actions
  | .take now :: actions => (if escapeSettleMs ≤ now - last then [.settle] else []) ++ typedOf generation last actions

namespace InputTracker
variable {t : InputTracker}
variable {last : ℕ} {s : InputState}

def act (t : InputTracker) : InputAction → InputTracker
  | .feed bytes generation now menuActive => t.feed bytes generation now menuActive
  | .take now => (t.takePending now).1

def run (t : InputTracker) (actions : List InputAction) : InputTracker := actions.foldl act t

def recorded (t : InputTracker) : InputAction → List InputRecord
  | .feed bytes generation now menuActive =>
    (Transducers.feed step (t.ofGeneration generation).state (bytes.map (.key · now menuActive))).2
  | .take now => if t.settles now then t.state.settled.2 else []

def records (t : InputTracker) : List InputAction → List InputRecord
  | [] => []
  | a :: actions => t.recorded a ++ (t.act a).records actions

def Recovers (t : InputTracker) : Prop :=
  (∀ matched, t.state ≠ .paste matched) → ∀ settledAt now menuActive,
    (∀ time allowed, (t.takePending settledAt).1.state ≠ .escape time allowed) →
      ((t.takePending settledAt).1.feed [0x0d] t.generation now menuActive).submittedAt = some now

def Silent (t : InputTracker) : Prop :=
  ∀ content : List InputAction, (∀ a ∈ content, a.OfGeneration t.generation) → ¬ pasteEnd <:+: inputBytes content →
    t.records content = []

theorem foldl_record (t : InputTracker) (records : List InputRecord) :
    (records.foldl record t).state = t.state ∧ (records.foldl record t).generation = t.generation := by
  induction records generalizing t with
  | nil => exact ⟨rfl,rfl⟩
  | cons r records ih =>
    obtain ⟨hstate,hgeneration⟩ := ih (t.record r)
    cases r with
    | cancelled time | submitted now => exact ⟨hstate,hgeneration⟩

@[simp] theorem advance_state (t : InputTracker) (result : InputState × List InputRecord) : (t.advance result).state = result.1 :=
  (foldl_record _ _).1

@[simp] theorem advance_generation (t : InputTracker) (result : InputState × List InputRecord) :
    (t.advance result).generation = t.generation := (foldl_record _ _).2

theorem record_with_state (t : InputTracker) (state : InputState) (records : List InputRecord) :
    records.foldl record { t with state } = { records.foldl record t with state } := by
  induction records generalizing t with
  | nil => rfl
  | cons r records ih =>
    cases r with
    | cancelled time => exact ih (t.noteCancel time)
    | submitted now => exact ih { t with submittedAt := some (t.submittedAt.getD now) }

theorem feed_eq_advance (t : InputTracker) (bytes : List UInt8) (generation now : ℕ) (menuActive : Bool) :
    t.feed bytes generation now menuActive = (t.ofGeneration generation).advance
      (Transducers.feed step (t.ofGeneration generation).state (bytes.map (.key · now menuActive))) := by
  unfold InputTracker.feed
  generalize t.ofGeneration generation = u
  induction bytes generalizing u with
  | nil => rfl
  | cons b bytes ih =>
    rw [foldl_cons, ih, advance_state]
    simp only [advance, map_cons, Transducers.feed, step, foldl_append, record_with_state]

def PendingSince (last : ℕ) (state : InputState) : Prop := ∀ time allowed, state = .escape time allowed → time = last

theorem pendingSince_next (s : InputState) (b : UInt8) (now : ℕ) (menu : Bool) : PendingSince now (s.next b now menu).1 := by
  intro time allowed h
  unfold InputState.next at h
  cases s with
  | plain =>
    dsimp only at h
    split_ifs at h
    cases h
    rfl
  | escape time' allowed' =>
    split_ifs at h
    all_goals
      cases h
      rfl
  | csi parameters allowed' | paste matched =>
    dsimp only at h
    split_ifs at h
  | ss3 => cases h
  | string | stringEscape =>
    split_ifs at h

theorem pendingSince_keys (bytes : List UInt8) (now : ℕ) (menu : Bool) (hs : PendingSince last s) :
    PendingSince (if bytes = [] then last else now) (runFrom s (bytes.map (.key · now menu))) := by
  cases bytes using List.reverseRecOn with
  | nil => exact hs
  | append_singleton bytes b =>
    rw [if_neg (by simp), map_append, map_singleton, runFrom_snoc]
    exact pendingSince_next _ b now menu

theorem takePending_state (t : InputTracker) (now : ℕ) :
    (t.takePending now).1.state = if t.settles now then t.state.settled.1 else t.state := by
  change (t.settle now).state = _
  unfold settle
  split_ifs
  · exact advance_state t _
  · rfl

theorem takePending_generation (t : InputTracker) (now : ℕ) : (t.takePending now).1.generation = t.generation := by
  change (t.settle now).generation = _
  unfold settle
  split_ifs
  · exact advance_generation t _
  · rfl

/-- A query settles what it has to. -/
theorem takePending_step (t : InputTracker) (now : ℕ) (hlast : PendingSince last t.state) :
    (t.takePending now).1.state = runFrom t.state (if escapeSettleMs ≤ now - last then [.settle] else []) ∧
      t.recorded (.take now) = (Transducers.feed step t.state (if escapeSettleMs ≤ now - last then [.settle] else [])).2 ∧
      PendingSince last (t.takePending now).1.state := by
  have hother (s : InputState) (h : ∀ time allowed, s ≠ .escape time allowed) : PendingSince last s := fun time allowed hs =>
    absurd hs (h time allowed)
  rw [takePending_state]
  unfold recorded settles
  cases hstate : t.state with
  | escape time allowed =>
    obtain rfl := hlast time allowed hstate
    by_cases hold : escapeSettleMs ≤ now - time
    · simp [hold, settled, runFrom, Transducers.feed, step, PendingSince]
    · simp [hold, runFrom, Transducers.feed, PendingSince]
  | plain => split_ifs <;> exact ⟨rfl,rfl,hother .plain (fun _ _ h => by cases h)⟩
  | csi parameters allowed => split_ifs <;> exact ⟨rfl,rfl,hother (.csi parameters allowed) (fun _ _ h => by cases h)⟩
  | ss3 => split_ifs <;> exact ⟨rfl,rfl,hother .ss3 (fun _ _ h => by cases h)⟩
  | string => split_ifs <;> exact ⟨rfl,rfl,hother .string (fun _ _ h => by cases h)⟩
  | stringEscape => split_ifs <;> exact ⟨rfl,rfl,hother .stringEscape (fun _ _ h => by cases h)⟩
  | paste matched => split_ifs <;> exact ⟨rfl,rfl,hother (.paste matched) (fun _ _ h => by cases h)⟩

theorem ofGeneration_state (t : InputTracker) (generation : ℕ) :
    (t.ofGeneration generation).state = runFrom t.state (if t.generation = generation then [] else [.restart]) := by
  unfold ofGeneration
  split_ifs <;> rfl

theorem ofGeneration_generation (t : InputTracker) (generation : ℕ) : (t.ofGeneration generation).generation = generation := by
  unfold ofGeneration
  split_ifs with h
  · exact h
  · rfl

theorem pendingSince_ofGeneration (hlast : PendingSince last t.state) (generation : ℕ) :
    PendingSince last (t.ofGeneration generation).state := by
  unfold ofGeneration
  split_ifs
  · exact hlast
  · exact fun time allowed h => by cases h

/-- The tracker's state and what it records are those of the typed input. -/
theorem run_typed (t : InputTracker) (actions : List InputAction) (hlast : PendingSince last t.state) :
    (t.run actions).state = runFrom t.state (typedOf t.generation last actions) ∧
      t.records actions = (Transducers.feed step t.state (typedOf t.generation last actions)).2 := by
  induction actions generalizing t last with
  | nil => exact ⟨rfl,rfl⟩
  | cons a actions ih =>
    cases a with
    | take now =>
      obtain ⟨hstate,hrecorded,hsince⟩ := takePending_step t now hlast
      obtain ⟨hrun,hrecords⟩ := ih (t.takePending now).1 hsince
      rw [takePending_generation, hstate] at hrun hrecords
      rw [typedOf, runFrom_append, feed_append]
      exact ⟨hrun,congrArg₂ (· ++ ·) hrecorded hrecords⟩
    | feed bytes generation now menu =>
      have hfeed := feed_eq_advance t bytes generation now menu
      have hstate : (t.feed bytes generation now menu).state =
          runFrom (t.ofGeneration generation).state (bytes.map (.key · now menu)) := by
        rw [hfeed]
        exact advance_state _ _
      have hgeneration : (t.feed bytes generation now menu).generation = generation := by
        rw [hfeed, advance_generation, ofGeneration_generation]
      have hsince := pendingSince_keys bytes now menu (pendingSince_ofGeneration hlast generation)
      rw [← hstate] at hsince
      obtain ⟨hrun,hrecords⟩ := ih (t.feed bytes generation now menu) hsince
      rw [hgeneration, hstate, ofGeneration_state] at hrun hrecords
      rw [typedOf, runFrom_append, runFrom_append, feed_append, feed_append]
      refine ⟨hrun,?_⟩
      have hquiet : (Transducers.feed step t.state (if t.generation = generation then [] else [.restart])).2 = [] := by
        split_ifs <;> rfl
      rw [hquiet, nil_append]
      refine congrArg₂ (· ++ ·) ?_ hrecords
      change (Transducers.feed step (t.ofGeneration generation).state _).2 = _
      rw [ofGeneration_state]
      rfl

/-- The bytes of the typed input are those of the actions. -/
theorem typedOf_same (generation last : ℕ) {actions : List InputAction} (h : ∀ a ∈ actions, a.OfGeneration generation) :
    WithoutRestart (typedOf generation last actions) ∧ bytesOf (typedOf generation last actions) = inputBytes actions := by
  induction actions generalizing last with
  | nil => exact ⟨nofun,rfl⟩
  | cons a actions ih =>
    have hrest (last : ℕ) := ih last fun b hb => h b (mem_cons_of_mem _ hb)
    cases a with
    | take now =>
      obtain ⟨hrestart,hbytes⟩ := hrest last
      rw [typedOf, bytesOf_append, hbytes]
      constructor
      · intro t ht
        rcases mem_append.mp ht with ht | ht
        · split_ifs at ht
          · rw [mem_singleton.mp ht]
            exact Typed.noConfusion
          · exact absurd ht not_mem_nil
        · exact hrestart t ht
      · split_ifs <;> rfl
    | feed bytes g now menu =>
      obtain rfl : g = generation := h _ (mem_cons_self ..)
      obtain ⟨hrestart,hbytes⟩ := hrest (if bytes = [] then last else now)
      have hkeys : bytesOf (bytes.map (.key · now menu)) = bytes := by
        simp [bytesOf, keyOf, filterMap_map, Function.comp_def]
      rw [typedOf, if_pos rfl, nil_append, bytesOf_append, hbytes, hkeys]
      refine ⟨fun t ht => ?_,rfl⟩
      rcases mem_append.mp ht with ht | ht
      · obtain ⟨b,-,rfl⟩ := mem_map.mp ht
        exact Typed.noConfusion
      · exact hrestart t ht

theorem next_return {state : InputState} (h : state ≠ .plain) (now : ℕ) (menu : Bool) : (state.next 0x0d now menu).2 = [] := by
  cases state with
  | plain => exact absurd rfl h
  | escape time allowed | csi parameters allowed | ss3 | string | stringEscape => rfl
  | paste m =>
    simp only [InputState.next]
    split_ifs <;> rfl

theorem feed_return (t : InputTracker) (now : ℕ) (menu : Bool) (hnone : t.submittedAt = none) :
    (t.feed [0x0d] t.generation now menu).submittedAt = some now ↔ t.state = .plain := by
  have hreturn : t.feed [0x0d] t.generation now menu = t.advance (t.state.next 0x0d now menu) := by
    unfold InputTracker.feed ofGeneration
    rw [if_pos rfl]
    rfl
  rw [hreturn]
  unfold advance
  by_cases hplain : t.state = .plain
  · have hsubmitted : (InputState.plain.next 0x0d now menu).2 = [.submitted now] := rfl
    rw [hplain, hsubmitted]
    simp [record, hnone]
  · rw [next_return hplain]
    simp [hnone, hplain]

theorem settles_eq_false (h : ∀ time allowed, t.state ≠ .escape time allowed) (now : ℕ) : t.settles now = false := by
  unfold settles
  split
  · rename_i time allowed heq
    exact absurd heq (h time allowed)
  · rfl

/-- The states in which a return counts. -/
theorem recovers_iff (t : InputTracker) : Recovers t ↔ ∃ e, Leads e t.state := by
  have hreturn (settledAt now : ℕ) (menu : Bool) :
      ((t.takePending settledAt).1.feed [0x0d] t.generation now menu).submittedAt = some now ↔
        (t.takePending settledAt).1.state = .plain := by
    have hfeed := feed_return (t.takePending settledAt).1 now menu rfl
    rwa [takePending_generation] at hfeed
  constructor
  · intro h
    by_contra hno
    have hpaste (m : ℕ) (hstate : t.state = .paste m) : False := hno ⟨.pasting,m,hstate⟩
    have hescape (time : ℕ) (allowed : Bool) (hstate : t.state = .escape time allowed) : False :=
      hno ⟨.pending,time,allowed,hstate⟩
    have hsame : (t.takePending 0).1.state = t.state := by
      rw [takePending_state, settles_eq_false hescape]
      rfl
    have hplain := (hreturn 0 0 false).mp (h hpaste 0 0 false (by rwa [hsame]))
    exact hno ⟨.rest,hsame ▸ hplain⟩
  · rintro ⟨e,hleads⟩ hpaste settledAt now menu hescape
    rw [hreturn]
    cases e with
    | rest =>
      have hplain : t.state = .plain := hleads
      rw [takePending_state, settles_eq_false (by rw [hplain]; exact nofun)]
      exact hplain
    | pending =>
      obtain ⟨time,allowed,hstate⟩ := hleads
      rw [takePending_state] at hescape ⊢
      split_ifs at hescape ⊢
      · rw [hstate]
        rfl
      · exact absurd hstate (hescape time allowed)
    | pasting =>
      obtain ⟨m,hstate⟩ := hleads
      exact absurd hstate (hpaste m)

/-- A paste that has just begun is silent; in every other state something may be recorded. -/
theorem silent_iff (t : InputTracker) (h : ∀ m, t.state = .paste m → m = 0) : Silent t ↔ ∃ m, t.state = .paste m := by
  constructor
  · intro hsilent
    have hfeed (bytes : List UInt8) (hend : ¬ pasteEnd <:+: bytes) :
        (Transducers.feed step t.state (bytes.map (.key · 0 false))).2 = [] := by
      have hrecords := hsilent [.feed bytes t.generation 0 false] (by simp [InputAction.OfGeneration]) (by simpa [inputBytes, InputAction.bytes] using hend)
      simpa [records, recorded, ofGeneration] using hrecords
    cases hstate : t.state with
    | paste m => exact ⟨m,rfl⟩
    | plain =>
      rw [hstate] at hfeed
      cases hfeed [0x0d] (by decide)
    | escape time allowed | ss3 =>
      rw [hstate] at hfeed
      cases hfeed [0x61,0x0d] (by decide)
    | csi parameters allowed =>
      rw [hstate] at hfeed
      exact absurd (hfeed [0x61,0x0d] (by decide)) (by simp [Transducers.feed, step, InputState.next, isFinal, escapeKey])
    | string =>
      rw [hstate] at hfeed
      cases hfeed [0x07,0x0d] (by decide)
    | stringEscape =>
      rw [hstate] at hfeed
      cases hfeed [0x5c,0x0d] (by decide)
  · rintro ⟨m,hstate⟩ content hgeneration hend
    obtain rfl := h m hstate
    have hlast : PendingSince 0 t.state := by
      rw [hstate]
      exact fun time allowed hs => by cases hs
    obtain ⟨hrestart,hbytes⟩ := typedOf_same t.generation 0 hgeneration
    rw [← hbytes] at hend
    rw [(run_typed t content hlast).2, hstate]
    exact (run_paste hrestart hend).1

theorem typedOf_append (t : InputTracker) (before after : List InputAction) (last : ℕ) :
    ∃ last', typedOf t.generation last (before ++ after) =
      typedOf t.generation last before ++ typedOf (t.run before).generation last' after := by
  induction before generalizing t last with
  | nil => exact ⟨last,rfl⟩
  | cons a before ih =>
    cases a with
    | take now =>
      obtain ⟨last',hrest⟩ := ih (t.takePending now).1 last
      rw [takePending_generation] at hrest
      refine ⟨last',?_⟩
      rw [cons_append, typedOf, typedOf, hrest, append_assoc]
      rfl
    | feed bytes generation now menu =>
      have hgeneration : (t.feed bytes generation now menu).generation = generation := by
        rw [feed_eq_advance, advance_generation, ofGeneration_generation]
      obtain ⟨last',hrest⟩ := ih (t.feed bytes generation now menu) (if bytes = [] then last else now)
      rw [hgeneration] at hrest
      refine ⟨last',?_⟩
      rw [cons_append, typedOf, typedOf, hrest, ← append_assoc]
      rfl

theorem next_tilde {now m : ℕ} {menu : Bool} (h : (s.next 0x7e now menu).1 = .paste m) : m = 0 := by
  have hlast : ∀ k < 6, pasteEnd[k]? = some 0x7e → k = 5 := by decide
  unfold InputState.next at h
  cases s with
  | paste k =>
    dsimp only at h
    by_cases hmatched : pasteEnd[k]? = some 0x7e
    · obtain ⟨hk,-⟩ := List.getElem?_eq_some_iff.mp hmatched
      obtain rfl := hlast k hk hmatched
      cases h
    · rw [if_neg hmatched] at h
      cases h
      rfl
  | csi parameters allowed =>
    dsimp only at h
    split_ifs at h
    cases h
    rfl
  | plain | escape time allowed | ss3 | string | stringEscape => cases h

/-- A paste whose last byte so far is a tilde has none of its terminator. -/
theorem paste_after_tilde {typed : List Typed} {x : List UInt8} {m : ℕ} (hrestart : WithoutRestart typed)
    (hbytes : bytesOf typed = x ++ [0x7e]) (h : runFrom s typed = .paste m) : m = 0 := by
  induction typed using List.reverseRecOn with
  | nil => exact absurd hbytes (by simp [bytesOf])
  | append_singleton typed t ih =>
    rw [runFrom_snoc] at h
    cases t with
    | restart => exact absurd rfl (hrestart .restart (mem_append_right _ (mem_singleton_self _)))
    | settle =>
      rw [bytesOf_snoc_settle] at hbytes
      refine ih (fun t ht => hrestart t (mem_append_left _ ht)) hbytes ?_
      cases hstate : runFrom s typed with
      | escape time allowed =>
        rw [hstate] at h
        cases h
      | _ =>
        rw [hstate] at h
        exact h
    | key b now menu =>
      rw [bytesOf_snoc_key] at hbytes
      obtain rfl : b = 0x7e := by simpa using (append_inj' hbytes rfl).2
      exact next_tilde h

def pasteStart : List UInt8 := [0x1b,0x5b,0x32,0x30,0x30,0x7e]

/-- A return counts after exactly the histories whose sequences are finished, and a paste is silent exactly if its start
is read as one. -/
theorem input_tracking_recovers_iff (history : List InputAction) :
    (Recovers (default.run history) ↔ ∃ e, Ends e (typedOf 0 0 history)) ∧
      ∀ start : List InputAction, (∀ a ∈ start, a.OfGeneration (default.run history).generation) → inputBytes start = pasteStart →
        (Silent (default.run (history ++ start)) ↔ Ends .pasting (typedOf 0 0 (history ++ start))) := by
  have hplain : PendingSince 0 default.state := nofun
  have hends (actions : List InputAction) (e : KeyEnd) :
      Leads e (default.run actions).state ↔ Ends e (typedOf 0 0 actions) := by
    rw [(run_typed default actions hplain).1]
    exact leads_iff e _
  refine ⟨?_,fun start hgeneration hstart => ?_⟩
  · rw [recovers_iff]
    exact exists_congr (hends history)
  · rw [← hends, silent_iff]
    · rfl
    · obtain ⟨last,htyped⟩ := typedOf_append default history start 0
      obtain ⟨hrestart,hbytes⟩ := typedOf_same (default.run history).generation last hgeneration
      intro m hm
      rw [(run_typed default _ hplain).1, htyped, runFrom_append] at hm
      exact paste_after_tilde hrestart (x := [0x1b,0x5b,0x32,0x30,0x30]) (hbytes.trans hstart) hm

/-- After Alt and a bracket no return counts. -/
theorem alt_bracket_swallows_returns : ¬ ∀ history, Recovers (default.run history) := by
  intro hall
  have hreturn := hall [.feed [0x1b,0x5d] 1 1000 false] nofun 2000 3000 false nofun
  exact absurd hreturn (by decide)

end InputTracker
end Unpeel.Activity
