import Mathlib.Algebra.Order.Group.Nat
import Mathlib.Data.List.Basic

/-! # Reading bytes that arrive in pieces

A `read` gives as many bytes as it likes, is interrupted, or fails; one that gives nothing is
the end. `read_exact` goes on over the ends of the pieces and over interruptions, so what it
gives does not depend on how the bytes were cut.
-/
namespace Unpeel.ByteReads
open List

inductive ReadEvent where
  | data (bytes : List UInt8)
  | interrupted
  | failed (error : List Char)
deriving DecidableEq

def readByte : List ReadEvent → Except (List Char) (Option UInt8) × List ReadEvent
  | [] => (.ok none,[])
  | .interrupted :: events => readByte events
  | .failed error :: events => (.error error,events)
  | .data [] :: events => (.ok none,events)
  | .data [b] :: events => (.ok (some b),events)
  | .data (b :: bytes) :: events => (.ok (some b),.data bytes :: events)

/-- One `read` of so many bytes at most. -/
def read (n : ℕ) : List ReadEvent → Except (List Char) (List UInt8) × List ReadEvent
  | [] => (.ok [],[])
  | .interrupted :: events => (.error "Interrupted system call (os error 4)".toList,events)
  | .failed error :: events => (.error error,events)
  | .data bytes :: events =>
    if bytes.length ≤ n then (.ok bytes,events) else (.ok (bytes.take n),.data (bytes.drop n) :: events)

def endOfFile : List Char := "failed to fill whole buffer".toList

def readExact : ℕ → List ReadEvent → Except (List Char) (List UInt8) × List ReadEvent
  | 0, events => (.ok [],events)
  | _ + 1, [] => (.error endOfFile,[])
  | n + 1, .interrupted :: events => readExact (n + 1) events
  | _ + 1, .failed error :: events => (.error error,events)
  | n + 1, .data bytes :: events =>
    if bytes = [] then (.error endOfFile,events)
    else if bytes.length ≤ n + 1 then
      let (result,rest) := readExact (n + 1 - bytes.length) events
      (result.map (bytes ++ ·),rest)
    else (.ok (bytes.take (n + 1)),.data (bytes.drop (n + 1)) :: events)

def remaining : List ReadEvent → ℕ
  | [] => 0
  | .data bytes :: events => bytes.length + 1 + remaining events
  | _ :: events => 1 + remaining events

inductive Delivers : List ReadEvent → List UInt8 → Prop
  | done : Delivers [] []
  | interrupted {events : List ReadEvent} {bytes : List UInt8} : Delivers events bytes → Delivers (.interrupted :: events) bytes
  | data (b : UInt8) (piece : List UInt8) {events : List ReadEvent} {bytes : List UInt8} :
      Delivers events bytes → Delivers (.data (b :: piece) :: events) (b :: piece ++ bytes)

inductive Cut : List ReadEvent → List UInt8 → Prop
  | done : Cut [] []
  | data (b : UInt8) (piece : List UInt8) {events : List ReadEvent} {bytes : List UInt8} :
      Cut events bytes → Cut (.data (b :: piece) :: events) (b :: piece ++ bytes)

variable {events : List ReadEvent} {bytes : List UInt8}

@[simp] theorem readExact_zero (events : List ReadEvent) : readExact 0 events = (.ok [],events) := by
  cases events <;> rfl

theorem readByte_nil (h : Delivers events []) : (readByte events).1 = .ok none := by
  generalize hbytes : ([] : List UInt8) = bytes at h
  induction h with
  | done => rfl
  | interrupted _ ih => exact ih hbytes
  | data b piece _ ih => cases hbytes

theorem readByte_delivers {b : UInt8} {rest : List UInt8} (h : Delivers events (b :: rest)) :
    ∃ events', readByte events = (.ok (some b),events') ∧ Delivers events' rest := by
  generalize hbytes : b :: rest = bytes at h
  induction h with
  | done => cases hbytes
  | interrupted _ ih => exact ih hbytes
  | data b' piece hd ih =>
    cases hbytes
    cases piece with
    | nil => exact ⟨_,rfl,hd⟩
    | cons b' piece => exact ⟨_,rfl,.data b' piece hd⟩

/-- Exactly the bytes that come next, however they are cut. -/
theorem readExact_delivers (h : Delivers events bytes) {front rest : List UInt8} (hbytes : bytes = front ++ rest) :
    ∃ events', readExact front.length events = (.ok front,events') ∧ Delivers events' rest := by
  induction h generalizing front with
  | done =>
    obtain ⟨rfl,rfl⟩ := append_eq_nil_iff.mp hbytes.symm
    exact ⟨[],rfl,.done⟩
  | @interrupted events bytes hd ih =>
    cases front with
    | nil =>
      rw [hbytes] at hd
      exact ⟨_,readExact_zero _,.interrupted hd⟩
    | cons b front => exact ih hbytes
  | @data b piece events bytes hd ih =>
    cases front with
    | nil =>
      rw [nil_append] at hbytes
      rw [← hbytes]
      exact ⟨_,readExact_zero _,.data b piece hd⟩
    | cons b' front =>
      rw [cons_append, cons_append, List.cons.injEq] at hbytes
      obtain ⟨rfl,hbytes⟩ := hbytes
      rw [length_cons, readExact, if_neg (cons_ne_nil _ _)]
      by_cases hlength : piece.length ≤ front.length
      · obtain ⟨tail,rfl⟩ : ∃ tail, front = piece ++ tail := by
          obtain ⟨c,rfl,-⟩ | ⟨c,hc,-⟩ := List.append_eq_append_iff.mp hbytes
          · exact ⟨c,rfl⟩
          · rw [hc, length_append] at hlength
            have hnil : c = [] := eq_nil_of_length_eq_zero (by omega)
            exact ⟨[],by rw [hc, hnil, append_nil, append_nil]⟩
        rw [append_assoc, append_cancel_left_eq] at hbytes
        obtain ⟨events',hread,hrest⟩ := ih hbytes
        have hroom : (piece ++ tail).length + 1 - (b :: piece).length = tail.length := by
          rw [length_append, length_cons]
          omega
        rw [if_pos (by rw [length_cons]; omega), hroom, hread]
        exact ⟨events',rfl,hrest⟩
      · obtain ⟨c,hc,hrest⟩ : ∃ c, piece = front ++ c ∧ rest = c ++ bytes := by
          obtain ⟨c,hc,-⟩ | ⟨c,hc,hrest⟩ := List.append_eq_append_iff.mp hbytes
          · rw [hc, length_append] at hlength
            omega
          · exact ⟨c,hc,hrest⟩
        subst hc hrest
        obtain ⟨first,c,rfl⟩ : ∃ first rest, c = first :: rest := by
          cases c with
          | nil =>
            rw [append_nil] at hlength
            exact absurd (Nat.le_refl _) hlength
          | cons first c => exact ⟨first,c,rfl⟩
        rw [if_neg (by rw [length_cons]; omega), take_succ_cons, drop_succ_cons, take_left,
          drop_left]
        exact ⟨_,rfl,.data first c hd⟩

/-- A read at the end gives nothing. -/
theorem Cut.read_nil (h : Cut events []) (n : ℕ) : read n events = (.ok [],events) := by
  generalize hbytes : ([] : List UInt8) = bytes at h
  cases h with
  | done => rfl
  | data b piece _ => cases hbytes

/-- A read before the end gives some of the next bytes. -/
theorem Cut.read_cons (h : Cut events bytes) (hne : bytes ≠ []) (n : ℕ) :
    ∃ b chunk rest events', read (n + 1) events = (.ok (b :: chunk),events') ∧ chunk.length ≤ n ∧ bytes = b :: chunk ++ rest ∧
      Cut events' rest := by
  cases h with
  | done => exact absurd rfl hne
  | @data b piece events bytes hrest =>
    by_cases hlength : (b :: piece).length ≤ n + 1
    · rw [length_cons] at hlength
      exact ⟨b,piece,bytes,events,if_pos hlength,by omega,rfl,hrest⟩
    · rw [length_cons] at hlength
      obtain ⟨c,later,hlater⟩ : ∃ c later, piece.drop n = c :: later := exists_cons_of_ne_nil fun hnil => by
        have hle := drop_eq_nil_iff.mp hnil
        omega
      refine ⟨b,piece.take n,piece.drop n ++ bytes,.data (piece.drop n) :: events,if_neg hlength,length_take_le n piece,?_,?_⟩
      · rw [cons_append, cons_append, ← append_assoc, take_append_drop]
      · rw [hlater]
        exact .data c later hrest

@[simp] theorem remaining_data (bytes : List UInt8) (events : List ReadEvent) :
    remaining (.data bytes :: events) = bytes.length + 1 + remaining events := rfl

/-- Bytes that were read are gone. -/
theorem remaining_read_cons {n : ℕ} {b : UInt8} {chunk : List UInt8} {events' : List ReadEvent}
    (h : read n events = (.ok (b :: chunk),events')) : remaining events' < remaining events := by
  cases events with
  | nil => cases h
  | cons event events =>
    cases event with
    | interrupted | failed error => cases h
    | data bytes =>
      rw [read] at h
      split at h
      · cases h
        rw [remaining_data]
        omega
      · obtain ⟨hchunk,rfl⟩ := Prod.mk.inj h
        have hlength := congrArg List.length (Except.ok.inj hchunk)
        rw [length_take, length_cons] at hlength
        rw [remaining_data, remaining_data, length_drop]
        omega

theorem remaining_readByte (events : List ReadEvent) : remaining (readByte events).2 ≤ remaining events := by
  induction events using readByte.induct with
  | case1 => exact Nat.le_refl _
  | case2 events ih => exact Nat.le_trans ih (Nat.le_add_left _ 1)
  | case3 error events | case4 events => exact Nat.le_add_left _ 1
  | case5 b events => exact Nat.le_add_left _ 2
  | case6 b bytes events h =>
    cases bytes with
    | nil => exact absurd rfl h
    | cons c bytes =>
      show remaining (.data (c :: bytes) :: events) ≤ _
      rw [remaining_data, remaining_data, length_cons, length_cons, length_cons]
      omega

/-- A byte that was read is gone. -/
theorem remaining_readByte_some {b : UInt8} (h : (readByte events).1 = .ok (some b)) :
    remaining (readByte events).2 < remaining events := by
  induction events using readByte.induct with
  | case1 | case3 error events | case4 events => cases h
  | case2 events ih => exact Nat.lt_of_lt_of_le (ih h) (Nat.le_add_left _ 1)
  | case5 b events =>
    show remaining events < 1 + 1 + remaining events
    omega
  | case6 b bytes events hne =>
    cases bytes with
    | nil => exact absurd rfl hne
    | cons c bytes =>
      show remaining (.data (c :: bytes) :: events) < _
      rw [remaining_data, remaining_data, length_cons, length_cons, length_cons]
      omega

theorem remaining_readExact (n : ℕ) (events : List ReadEvent) : remaining (readExact n events).2 ≤ remaining events := by
  induction n, events using readExact.induct with
  | case1 events =>
    rw [readExact_zero]
  | case2 n => exact Nat.le_refl _
  | case3 n events ih => exact Nat.le_trans ih (Nat.le_add_left _ 1)
  | case4 n error events | case5 n events => exact Nat.le_add_left _ 1
  | case6 n bytes events hne hlength result rest hread ih =>
    rw [hread] at ih
    rw [readExact, if_neg hne, if_pos hlength, hread]
    exact Nat.le_trans ih (Nat.le_add_left _ _)
  | case7 n bytes events hne hlength =>
    rw [readExact, if_neg hne, if_neg hlength]
    rw [remaining_data, remaining_data, length_drop]
    omega

end Unpeel.ByteReads
