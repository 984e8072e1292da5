import Unpeel.Foundation.Utf8

/-! # Bytes that are not all text

Where no character begins, the longest part with which one could have begun is ill formed, or
else one byte is. Bytes that come in pieces may end in the middle of a character.
-/
namespace Unpeel.Utf8
open List

variable {ranges : List (ℕ × ℕ)} {tail a bytes out held : List UInt8} {n : ℕ}

def Begins : List (ℕ × ℕ) → List UInt8 → Prop
  | _, [] => True
  | [], _ :: _ => False
  | range :: ranges, b :: tail => Within range b ∧ Begins ranges tail

def Initial (part : List UInt8) : Prop := ∃ c, part <+: String.utf8EncodeChar c

def Unconvertible (bytes : List UInt8) : Prop := ∀ c, ¬String.utf8EncodeChar c <+: bytes

structure MaximalSubpart (part rest : List UInt8) : Prop where
  unconvertible : Unconvertible (part ++ rest)
  nonempty : part ≠ []
  initial : Initial part ∨ part.length = 1
  longest : ∀ longer, longer <+: part ++ rest → Initial longer → longer.length ≤ part.length

inductive Repaired : List UInt8 → List UInt8 → Prop where
  | nil : Repaired [] []
  | char (c : Char) {rest out : List UInt8} (h : Repaired rest out) :
      Repaired (String.utf8EncodeChar c ++ rest) (String.utf8EncodeChar c ++ out)
  | drop {part rest out : List UInt8} (hpart : MaximalSubpart part rest) (h : Repaired rest out) : Repaired (part ++ rest) out

theorem Begins.of_forall₂ (h : List.Forall₂ Within ranges tail) : Begins ranges tail := by
  induction h with
  | nil => trivial
  | cons hb _ ih => exact ⟨hb,ih⟩

theorem Begins.shorter {s t : List UInt8} (h : Begins ranges t) (hst : s <+: t) : Begins ranges s := by
  induction s generalizing ranges t with
  | nil => cases ranges <;> trivial
  | cons b s ih =>
    obtain ⟨u,rfl⟩ := hst
    cases ranges with
    | nil => cases h
    | cons range ranges => exact ⟨h.1,ih h.2 (prefix_append s u)⟩

theorem Begins.complete (h : Begins ranges tail)
    (hranges : ∀ range ∈ ranges, Continues range) : ∃ more, List.Forall₂ Within ranges (tail ++ more) := by
  induction ranges generalizing tail with
  | nil =>
    cases tail with
    | nil => exact ⟨[],.nil⟩
    | cons => cases h
  | cons range ranges ih =>
    have hrest : ∀ range ∈ ranges, Continues range := fun r hr => hranges r (mem_cons_of_mem _ hr)
    cases tail with
    | nil =>
      obtain ⟨b,hb⟩ := (hranges range mem_cons_self).exists_within
      have hempty : Begins ranges [] := by cases ranges <;> trivial
      obtain ⟨more,hmore⟩ := ih hempty hrest
      exact ⟨b :: more,.cons hb hmore⟩
    | cons b tail =>
      obtain ⟨more,hmore⟩ := ih h.2 hrest
      exact ⟨more,.cons h.1 hmore⟩

/-- What a character can begin with. -/
theorem initial_iff (first : UInt8) (tail : List UInt8) :
    Initial (first :: tail) ↔ ∃ ranges, tailRanges first = some ranges ∧ Begins ranges tail := by
  constructor
  · rintro ⟨c,more,hc⟩
    obtain ⟨ranges,hranges,htail⟩ := tailRanges_encodeChar hc.symm
    exact ⟨ranges,hranges,(Begins.of_forall₂ htail).shorter (prefix_append tail more)⟩
  · rintro ⟨ranges,hranges,htail⟩
    obtain ⟨more,hmore⟩ := htail.complete (tailRanges_spec hranges).2
    obtain ⟨c,hc⟩ := exists_encodeChar hranges hmore
    exact ⟨c,more,by rw [hc, cons_append]⟩

/-! ### Reading the front of some bytes -/

inductive Head where
  | char (n : ℕ)
  | bad (n : ℕ)
  | cut
deriving DecidableEq

def readTail : List (ℕ × ℕ) → List UInt8 → ℕ → Head
  | [], _, n => .char n
  | _ :: _, [], _ => .cut
  | range :: ranges, b :: rest, n => if Within range b then readTail ranges rest (n + 1) else .bad n

def readHead : List UInt8 → Head
  | [] => .cut
  | first :: rest => (tailRanges first).elim (.bad 1) fun ranges => readTail ranges rest 1

theorem readTail_append (h : readTail ranges a n ≠ .cut) (b : List UInt8) :
    readTail ranges (a ++ b) n = readTail ranges a n := by
  induction ranges generalizing a n with
  | nil => rfl
  | cons range ranges ih =>
    cases a with
    | nil => exact absurd rfl h
    | cons x a =>
      rw [cons_append]
      unfold readTail at h ⊢
      split_ifs with hx
      · rw [if_pos hx] at h
        exact ih h
      · rfl

/-- What is decided does not change with what comes later. -/
theorem readHead_append (h : readHead a ≠ .cut) (b : List UInt8) : readHead (a ++ b) = readHead a := by
  cases a with
  | nil => exact absurd rfl h
  | cons first a =>
    rw [readHead] at h
    rw [cons_append, readHead, readHead]
    cases hranges : tailRanges first with
    | none => rfl
    | some ranges =>
      rw [hranges] at h
      exact readTail_append h b

theorem readTail_char (h : List.Forall₂ Within ranges tail) (rest : List UInt8) (n : ℕ) :
    readTail ranges (tail ++ rest) n = .char (n + tail.length) := by
  induction h generalizing n with
  | nil => rfl
  | cons hb _ ih =>
    rw [cons_append, readTail, if_pos hb, ih, length_cons, Nat.add_right_comm, Nat.add_assoc]

theorem readHead_encodeChar (c : Char) (rest : List UInt8) :
    readHead (String.utf8EncodeChar c ++ rest) = .char (String.utf8EncodeChar c).length := by
  cases hc : String.utf8EncodeChar c with
  | nil => exact absurd hc String.utf8EncodeChar_ne_nil
  | cons first tail =>
    obtain ⟨ranges,hranges,htail⟩ := tailRanges_encodeChar hc
    rw [cons_append, readHead, hranges, Option.elim_some, readTail_char htail, length_cons, Nat.add_comm]

theorem readTail_eq_char {m : ℕ} (h : readTail ranges bytes n = .char m) :
    ∃ tail rest, bytes = tail ++ rest ∧ List.Forall₂ Within ranges tail := by
  induction ranges generalizing bytes n with
  | nil => exact ⟨[],bytes,rfl,.nil⟩
  | cons range ranges ih =>
    cases bytes with
    | nil => cases h
    | cons b bytes =>
      unfold readTail at h
      split_ifs at h with hb
      obtain ⟨tail,rest,rfl,htail⟩ := ih h
      exact ⟨b :: tail,rest,rfl,.cons hb htail⟩

theorem readTail_eq_bad {m : ℕ} (h : readTail ranges bytes n = .bad m) :
    ∃ good b rest, bytes = good ++ b :: rest ∧ m = n + good.length ∧ Begins ranges good ∧ good.length < ranges.length ∧
      ¬Begins ranges (good ++ [b]) := by
  induction ranges generalizing bytes n with
  | nil => cases h
  | cons range ranges ih =>
    cases bytes with
    | nil => cases h
    | cons b bytes =>
      unfold readTail at h
      split_ifs at h with hb
      · obtain ⟨good,x,rest,rfl,rfl,hgood,hlength,hx⟩ := ih h
        exact ⟨b :: good,x,rest,rfl,by rw [length_cons]; omega,⟨hb,hgood⟩,Nat.succ_lt_succ hlength,fun hall => hx hall.2⟩
      · cases h
        exact ⟨[],b,bytes,rfl,rfl,trivial,Nat.zero_lt_succ _,fun hall => hb hall.1⟩

theorem readTail_eq_cut (h : readTail ranges bytes n = .cut) :
    Begins ranges bytes ∧ bytes.length < ranges.length := by
  induction ranges generalizing bytes n with
  | nil => cases h
  | cons range ranges ih =>
    cases bytes with
    | nil => exact ⟨trivial,Nat.zero_lt_succ _⟩
    | cons b bytes =>
      unfold readTail at h
      split_ifs at h with hb
      obtain ⟨htail,hlength⟩ := ih h
      exact ⟨⟨hb,htail⟩,Nat.succ_lt_succ hlength⟩

theorem readHead_eq_char (h : readHead bytes = .char n) :
    ∃ c rest, bytes = String.utf8EncodeChar c ++ rest ∧ n = (String.utf8EncodeChar c).length := by
  cases bytes with
  | nil => cases h
  | cons first bytes =>
    cases hranges : tailRanges first with
    | none =>
      rw [readHead, hranges] at h
      cases h
    | some ranges =>
      have htail := h
      rw [readHead, hranges] at htail
      obtain ⟨tail,rest,rfl,hwithin⟩ := readTail_eq_char htail
      obtain ⟨c,hc⟩ := exists_encodeChar hranges hwithin
      have hread := readHead_encodeChar c rest
      rw [hc, cons_append] at hread
      refine ⟨c,rest,by rw [hc, cons_append],?_⟩
      rw [hc]
      exact Head.char.inj (h.symm.trans hread)

/-- Initial bytes with no character at the front of them are a maximal part, where no longer ones are initial. -/
theorem maximalSubpart_of_head {part rest : List UInt8} (hne : part ≠ []) (hread : ∀ n, readHead (part ++ rest) ≠ .char n)
    (hinitial : Initial part ∨ part.length = 1)
    (hlongest : ∀ longer, longer <+: part ++ rest → Initial longer → longer.length ≤ part.length) : MaximalSubpart part rest where
  unconvertible := by
    rintro c ⟨more,hc⟩
    exact hread _ (hc ▸ readHead_encodeChar c more)
  nonempty := hne
  initial := hinitial
  longest := hlongest

theorem readHead_eq_bad (h : readHead bytes = .bad n) :
    ∃ part rest, bytes = part ++ rest ∧ n = part.length ∧ MaximalSubpart part rest := by
  cases bytes with
  | nil => cases h
  | cons first bytes =>
    cases hranges : tailRanges first with
    | none =>
      have hbad := h
      rw [readHead, hranges] at hbad
      cases hbad
      refine ⟨[first],bytes,rfl,rfl,maximalSubpart_of_head (cons_ne_nil _ _) (fun n => ?_) (.inr rfl) fun longer hlonger hinitial => ?_⟩
      · rw [singleton_append, h]
        nofun
      · cases longer with
        | nil => exact Nat.zero_le _
        | cons b longer =>
          obtain ⟨ranges,hsome,-⟩ := (initial_iff b longer).mp hinitial
          obtain ⟨more,hmore⟩ := hlonger
          obtain rfl : b = first := (List.cons.inj hmore).1
          rw [hranges] at hsome
          cases hsome
    | some ranges =>
      have hbad := h
      rw [readHead, hranges] at hbad
      obtain ⟨good,b,rest,rfl,rfl,hgood,hlength,hb⟩ := readTail_eq_bad hbad
      refine ⟨first :: good,b :: rest,rfl,by rw [length_cons, Nat.add_comm],
        maximalSubpart_of_head (cons_ne_nil _ _) (fun n => ?_) (.inl ((initial_iff first good).mpr ⟨ranges,hranges,hgood⟩))
        fun longer hlonger hinitial => ?_⟩
      · rw [cons_append, h]
        nofun
      · cases longer with
        | nil => exact Nat.zero_le _
        | cons x longer =>
          obtain ⟨ranges',hsome,hbegins⟩ := (initial_iff x longer).mp hinitial
          rw [cons_append, cons_prefix_cons] at hlonger
          obtain ⟨rfl,hlonger⟩ := hlonger
          obtain rfl : ranges = ranges' := Option.some.inj (hranges.symm.trans hsome)
          -- one byte more would be the one that does not fit
          refine Nat.succ_le_succ (Nat.le_of_not_lt fun hlt => hb (hbegins.shorter ?_))
          have hwhole : good ++ [b] <+: good ++ b :: rest := ⟨rest,by rw [append_assoc, singleton_append]⟩
          refine prefix_of_prefix_length_le hwhole hlonger ?_
          rw [length_append, length_singleton]
          exact hlt

theorem readHead_eq_cut (h : readHead bytes = .cut) (hne : bytes ≠ []) :
    MaximalSubpart bytes [] ∧ Initial bytes ∧ bytes.length ≤ 3 := by
  cases bytes with
  | nil => exact absurd rfl hne
  | cons first bytes =>
    cases hranges : tailRanges first with
    | none =>
      rw [readHead, hranges] at h
      cases h
    | some ranges =>
      have hcut := h
      rw [readHead, hranges] at hcut
      obtain ⟨hbegins,hlength⟩ := readTail_eq_cut hcut
      have hinitial := (initial_iff first bytes).mpr ⟨ranges,hranges,hbegins⟩
      have hranges3 := (tailRanges_spec hranges).1
      refine ⟨maximalSubpart_of_head hne (fun n => ?_) (.inl hinitial) fun longer hlonger _ => ?_,hinitial,?_⟩
      · rw [append_nil, h]
        nofun
      · rw [append_nil] at hlonger
        exact hlonger.length_le
      · rw [length_cons]
        omega

/-- Only one text is left. -/
theorem Repaired.unique {out' : List UInt8} (h : Repaired bytes out) (h' : Repaired bytes out') : out = out' := by
  induction h generalizing out' with
  | nil =>
    generalize hnil : ([] : List UInt8) = bytes at h'
    cases h' with
    | nil => rfl
    | char c h => exact absurd (append_eq_nil_iff.mp hnil.symm).1 String.utf8EncodeChar_ne_nil
    | drop hpart h => exact absurd (append_eq_nil_iff.mp hnil.symm).1 hpart.nonempty
  | @char c rest out h ih =>
    generalize hbytes : String.utf8EncodeChar c ++ rest = bytes at h'
    cases h' with
    | nil => exact absurd (append_eq_nil_iff.mp hbytes).1 String.utf8EncodeChar_ne_nil
    | @char d rest' out' h' =>
      have hlength := Head.char.inj ((readHead_encodeChar c rest).symm.trans (hbytes ▸ readHead_encodeChar d rest'))
      obtain ⟨hc,rfl⟩ := append_inj hbytes hlength
      rw [hc, ih h']
    | @drop part rest' out' hpart h' => exact absurd ⟨rest,hbytes⟩ (hpart.unconvertible c)
  | @drop part rest out hpart h ih =>
    generalize hbytes : part ++ rest = bytes at h'
    cases h' with
    | nil => exact absurd (append_eq_nil_iff.mp hbytes).1 hpart.nonempty
    | @char d rest' out' h' => exact absurd ⟨rest',hbytes.symm⟩ (hpart.unconvertible d)
    | @drop part' rest' out' hpart' h' =>
      have hle : part.length ≤ part'.length := hpart.initial.elim (hpart'.longest _ (hbytes ▸ prefix_append _ _))
        fun hone => hone ▸ length_pos_of_ne_nil hpart'.nonempty
      have hge : part'.length ≤ part.length := hpart'.initial.elim (hpart.longest _ (hbytes ▸ prefix_append _ _))
        fun hone => hone ▸ length_pos_of_ne_nil hpart.nonempty
      obtain ⟨-,rfl⟩ := append_inj hbytes (Nat.le_antisymm hle hge)
      exact ih h'

/-! ### Text that comes in pieces -/

inductive Splits : List UInt8 → List UInt8 → List UInt8 → Prop where
  | nil : Splits [] [] []
  | char (c : Char) {rest out held : List UInt8} (h : Splits rest out held) :
      Splits (String.utf8EncodeChar c ++ rest) (String.utf8EncodeChar c ++ out) held
  | drop {part rest out held : List UInt8} (hpart : readHead (part ++ rest) = .bad part.length) (h : Splits rest out held) :
      Splits (part ++ rest) out held
  | cut {part : List UInt8} (hne : part ≠ []) (hcut : readHead part = .cut) : Splits part [] part

/-- What was held back is read again with what comes next. -/
theorem Splits.append {b out' held' : List UInt8} (h : Splits a out held) (h' : Splits (held ++ b) out' held') :
    Splits (a ++ b) (out ++ out') held' := by
  induction h with
  | nil | cut => exact h'
  | char c _ ih =>
    rw [append_assoc, append_assoc]
    exact .char c (ih h')
  | drop hpart _ ih =>
    rw [append_assoc]
    refine .drop ?_ (ih h')
    rw [← append_assoc, readHead_append (by rw [hpart]; nofun), hpart]

theorem maximalSubpart_of_bad {part rest : List UInt8} (h : readHead (part ++ rest) = .bad part.length) : MaximalSubpart part rest := by
  obtain ⟨part',rest',happend,hlength,hmaximal⟩ := readHead_eq_bad h
  obtain ⟨rfl,rfl⟩ := append_inj happend hlength
  exact hmaximal

theorem Splits.repaired (h : Splits bytes out held) : Repaired bytes out := by
  induction h with
  | nil => exact .nil
  | char c _ ih => exact .char c ih
  | drop hpart _ ih => exact .drop (maximalSubpart_of_bad hpart) ih
  | @cut part hne hcut =>
    have hdrop := Repaired.drop (readHead_eq_cut hcut hne).1 .nil
    rwa [append_nil] at hdrop

theorem Splits.held_cut (h : Splits bytes out held) : readHead held = .cut := by
  induction h with
  | nil => rfl
  | char c _ ih | drop _ _ ih => exact ih
  | cut _ hcut => exact hcut

theorem length_le_of_cut (h : readHead bytes = .cut) : bytes.length ≤ 3 := by
  cases bytes with
  | nil => exact Nat.zero_le _
  | cons first rest => exact (readHead_eq_cut h (cons_ne_nil _ _)).2.2

/-- Behind the first byte of a character all bytes continue it. -/
theorem mem_tail {first : UInt8} (h : tailRanges first = some ranges)
    (htail : Begins ranges tail) {b : UInt8} (hb : b ∈ tail) : Within continuation b := by
  have hranges := (tailRanges_spec h).2
  clear h
  induction tail generalizing ranges with
  | nil => cases hb
  | cons x tail ih =>
    cases ranges with
    | nil => exact htail.elim
    | cons range ranges =>
      rcases mem_cons.mp hb with rfl | hb
      · have hrange := hranges range mem_cons_self
        exact ⟨hrange.low.trans htail.1.1,htail.1.2.trans hrange.high⟩
      · exact ih htail.2 hb fun r hr => hranges r (mem_cons_of_mem _ hr)

/-- No first byte continues a character. -/
theorem tailRanges_continuation {b : UInt8} (h : Within continuation b) : tailRanges b = none := by
  unfold Within continuation at h
  unfold tailRanges
  rw [if_neg (by omega), if_pos (by omega)]

/-- Characters of more than one byte have no byte in common with ASCII. -/
theorem low_of_encodeChar {c : Char} (h : 1 < (String.utf8EncodeChar c).length) {b : UInt8} (hb : b ∈ String.utf8EncodeChar c) :
    0x80 ≤ b.toNat := by
  cases hc : String.utf8EncodeChar c with
  | nil => exact absurd hc String.utf8EncodeChar_ne_nil
  | cons first tail =>
    obtain ⟨ranges,hranges,htail⟩ := tailRanges_encodeChar hc
    rw [hc] at h hb
    rcases mem_cons.mp hb with rfl | hb
    · by_contra hlow
      have hascii : tailRanges b = some [] := by
        unfold tailRanges
        rw [if_pos (by omega)]
      rw [hascii] at hranges
      cases hranges
      cases htail
      exact absurd h (Nat.lt_irrefl 1)
    · exact (mem_tail hranges (Begins.of_forall₂ htail) hb).1
/-- Nowhere in the beginning of a character is there a whole one. -/
theorem no_char_in_cut (h : readHead bytes = .cut) (c : Char) : ¬String.utf8EncodeChar c <:+: bytes := by
  rintro ⟨pre,post,rfl⟩
  cases pre with
  | nil =>
    rw [nil_append, readHead_encodeChar] at h
    cases h
  | cons first pre =>
    cases hc : String.utf8EncodeChar c with
    | nil => exact String.utf8EncodeChar_ne_nil hc
    | cons f tail =>
      obtain ⟨ranges,hranges,-⟩ := tailRanges_encodeChar hc
      obtain ⟨-,hinitial,-⟩ := readHead_eq_cut h (cons_ne_nil _ _)
      rw [cons_append, cons_append, initial_iff] at hinitial
      obtain ⟨ranges',hranges',hbegins⟩ := hinitial
      have hf : f ∈ pre ++ String.utf8EncodeChar c ++ post := by simp [hc]
      have hnone := tailRanges_continuation (mem_tail hranges' hbegins hf)
      rw [hranges] at hnone
      cases hnone

/-! ### The first error -/

/-- How far the bytes are text, and how long the bad sequence behind it is. Without a length
the bytes end in the middle of a character. -/
structure Utf8Error where
  validUpTo : ℕ
  errorLen : Option ℕ

def firstError (index : ℕ) : List UInt8 → Option Utf8Error
  | [] => none
  | first :: rest =>
    match readHead (first :: rest) with
    | .char n => firstError (index + n) (rest.drop (n - 1))
    | .bad n => some ⟨index,some n⟩
    | .cut => some ⟨index,none⟩
termination_by bytes => bytes.length

def Utf8Error.Describes (bytes : List UInt8) (index : ℕ) : Option Utf8Error → Prop
  | none => ∀ {out held : List UInt8}, Splits [] out held → Splits bytes (bytes ++ out) held
  | some ⟨valid,none⟩ => index ≤ valid ∧ Splits bytes (bytes.take (valid - index)) (bytes.drop (valid - index))
  | some ⟨valid,some n⟩ => index ≤ valid ∧ 0 < n ∧ valid - index < bytes.length ∧
      ∀ {out held : List UInt8}, Splits (bytes.drop (valid - index + n)) out held → Splits bytes (bytes.take (valid - index) ++ out) held

theorem Utf8Error.Describes.char {c : Char} {rest : List UInt8} {index : ℕ} {error : Option Utf8Error}
    (h : Utf8Error.Describes rest (index + (String.utf8EncodeChar c).length) error) :
    Utf8Error.Describes (String.utf8EncodeChar c ++ rest) index error := by
  rcases error with _ | ⟨valid,_ | n⟩
  · intro out held hout
    rw [append_assoc]
    exact .char c (h hout)
  · obtain ⟨hvalid,hsplits⟩ := h
    have hat : valid - index = (String.utf8EncodeChar c).length + (valid - (index + (String.utf8EncodeChar c).length)) := by omega
    refine ⟨by omega,?_⟩
    rw [hat, take_length_add_append, drop_length_add_append]
    exact .char c hsplits
  · obtain ⟨hvalid,hn,hlength,hsplits⟩ := h
    have hat : valid - index = (String.utf8EncodeChar c).length + (valid - (index + (String.utf8EncodeChar c).length)) := by omega
    refine ⟨by omega,hn,by rw [length_append]; omega,?_⟩
    intro out held hout
    rw [hat, Nat.add_assoc, drop_length_add_append] at hout
    rw [hat, take_length_add_append, append_assoc]
    exact .char c (hsplits hout)

theorem firstError_describes (index : ℕ) (bytes : List UInt8) : Utf8Error.Describes bytes index (firstError index bytes) := by
  induction index, bytes using firstError.induct with
  | case1 index =>
    rw [firstError]
    exact fun h => h
  | case2 index first rest n hread ih =>
    rw [firstError, hread]
    obtain ⟨c,more,hbytes,rfl⟩ := readHead_eq_char hread
    have hmore : rest.drop ((String.utf8EncodeChar c).length - 1) = more := by
      obtain ⟨k,hk⟩ := Nat.exists_eq_succ_of_ne_zero (length_pos_of_ne_nil (String.utf8EncodeChar_ne_nil (c := c))).ne'
      have hdrop := congrArg (List.drop (String.utf8EncodeChar c).length) hbytes
      rw [drop_left] at hdrop
      rw [hk, drop_succ_cons] at hdrop
      rw [hk, Nat.succ_sub_one, hdrop]
    dsimp only
    rw [hmore] at ih ⊢
    rw [hbytes]
    exact ih.char
  | case3 index first rest n hread =>
    rw [firstError, hread]
    obtain ⟨part,more,hbytes,rfl,hpart⟩ := readHead_eq_bad hread
    refine ⟨Nat.le_refl _,length_pos_of_ne_nil hpart.nonempty,by rw [Nat.sub_self]; exact Nat.zero_lt_succ _,?_⟩
    intro out held hout
    rw [Nat.sub_self, Nat.zero_add, hbytes, drop_left] at hout
    rw [Nat.sub_self, take_zero, nil_append, hbytes]
    rw [hbytes] at hread
    exact .drop hread hout
  | case4 index first rest hread =>
    rw [firstError, hread]
    refine ⟨Nat.le_refl _,?_⟩
    rw [Nat.sub_self, take_zero, drop_zero]
    exact .cut (cons_ne_nil _ _) hread

end Unpeel.Utf8
