import Unpeel.Remote.RelayCrypto

/-! # Probe datagrams of the direct path

A probe and the answer to one have the same 54 bytes of layout: magic, version,
direction, path session, time, nonce, and a truncated MAC over all of them. The
MAC is an argument.
-/
namespace Unpeel.Remote
open BigEndian

def probeMagic : Bytes := [0x55,0x4E,0x50,0x44]
def probeVersion : UInt8 := 1
def probeLen : ℕ := 54
def probeTagLen : ℕ := 16
def probeTimeWindowMs : ℕ := 30000

inductive ProbeDirection where
  | controllerToHost
  | hostToController
deriving DecidableEq

namespace ProbeDirection

def byte : ProbeDirection → UInt8
  | .controllerToHost => 0x01
  | .hostToController => 0x02

def fromByte (b : UInt8) : Option ProbeDirection :=
  if b = 0x01 then some .controllerToHost else if b = 0x02 then some .hostToController else none

def flipped : ProbeDirection → ProbeDirection
  | .controllerToHost => .hostToController
  | .hostToController => .controllerToHost

@[simp] theorem flipped_flipped (d : ProbeDirection) : d.flipped.flipped = d := by cases d <;> rfl

theorem flipped_ne (d : ProbeDirection) : d.flipped ≠ d := by cases d <;> decide

theorem fromByte_byte (d : ProbeDirection) : fromByte d.byte = some d := by cases d <;> rfl

theorem byte_inj {d e : ProbeDirection} (h : d.byte = e.byte) : d = e := by
  cases d <;> cases e <;> first | rfl | cases h

end ProbeDirection

structure Probe where
  direction : ProbeDirection
  timestampMs : ℕ
  nonce : Bytes

/-- `bytes[a..b]`. -/
def slice (bytes : Bytes) (a b : ℕ) : Bytes := (bytes.drop a).take (b - a)

structure PathKey where
  key : Vector UInt8 32
  pathSession : Vector UInt8 16

section Wire
variable (mac : Vector UInt8 32 → Bytes → Vector UInt8 32) (path : PathKey)

def probeBody (direction : ProbeDirection) (timestampMs : ℕ) (nonce : Bytes) : Bytes :=
  probeMagic ++ [probeVersion,direction.byte] ++ path.pathSession.toList ++ beBytes 8 timestampMs ++ nonce

def probeTag (body : Bytes) : Bytes := (mac path.key body).toList.take probeTagLen

def encodeProbe (direction : ProbeDirection) (timestampMs : ℕ) (nonce : Bytes) : Bytes :=
  let body := probeBody path direction timestampMs nonce
  body ++ probeTag mac path body

def constantTimeEq (a b : Bytes) : Bool :=
  if a.length ≠ b.length then false
  else (a.zip b).foldl (fun diff p => diff ||| (p.1 ^^^ p.2)) 0 == 0

/-- `verify_probe`, with the set of nonces it has seen. -/
def verifyProbe (bytes : Bytes) (expected : ProbeDirection) (nowMs : ℕ) (seen : List Bytes) :
    Option Probe × List Bytes :=
  if bytes.length ≠ probeLen ∨ slice bytes 0 4 ≠ probeMagic ∨ bytes.getD 4 0 ≠ probeVersion ∨
      slice bytes 6 22 ≠ path.pathSession.toList then (none,seen)
  else match ProbeDirection.fromByte (bytes.getD 5 0) with
    | none => (none,seen)
    | some direction =>
      if direction ≠ expected then (none,seen)
      else if constantTimeEq (probeTag mac path (bytes.take 38)) (bytes.drop 38) = false then (none,seen)
      else
        let timestampMs := readBe (slice bytes 22 30)
        if probeTimeWindowMs < max nowMs timestampMs - min nowMs timestampMs then (none,seen)
        else
          let nonce := slice bytes 30 38
          if nonce ∈ seen then (none,seen) else (some ⟨direction,timestampMs,nonce⟩,nonce :: seen)

end Wire

def nonceOf (bytes : Bytes) : Bytes := slice bytes 30 38
def timestampOf (bytes : Bytes) : ℕ := readBe (slice bytes 22 30)

section Lemmas
variable {mac : Vector UInt8 32 → Bytes → Vector UInt8 32} {path : PathKey}
variable {nonce : Bytes}

theorem foldl_diff (pairs : List (UInt8 × UInt8)) (diff : UInt8) :
    pairs.foldl (fun diff p => diff ||| (p.1 ^^^ p.2)) diff = 0 ↔ diff = 0 ∧ ∀ p ∈ pairs, p.1 = p.2 := by
  induction pairs generalizing diff with
  | nil => simp
  | cons p pairs ih =>
    have hor : diff ||| (p.1 ^^^ p.2) = 0 ↔ diff = 0 ∧ p.1 = p.2 := by
      simp only [← UInt8.toBitVec_inj, UInt8.toBitVec_or, UInt8.toBitVec_xor]
      exact BitVec.or_eq_zero_iff.trans (and_congr_right fun _ => BitVec.xor_eq_zero_iff)
    rw [List.foldl_cons, ih, hor, List.forall_mem_cons, and_assoc]

theorem constantTimeEq_iff {a b : Bytes} : constantTimeEq a b = true ↔ a = b := by
  unfold constantTimeEq
  split
  · next h => simpa using fun he => h (congrArg List.length he)
  · next h =>
    rw [beq_iff_eq, foldl_diff]
    constructor
    · rintro ⟨-,hall⟩
      apply List.ext_getElem (not_not.mp h)
      intro i hi hj
      exact hall (a[i],b[i]) (List.mem_iff_getElem.mpr ⟨i,by simpa using ⟨hi,hj⟩,by simp⟩)
    · rintro rfl
      refine ⟨rfl,fun p hp => ?_⟩
      obtain ⟨i,hi,rfl⟩ := List.mem_iff_getElem.mp hp
      simp

theorem probeBody_length (direction : ProbeDirection) (timestampMs : ℕ)
    (h : nonce.length = 8) : (probeBody path direction timestampMs nonce).length = 38 := by
  simp [probeBody, probeMagic, h]

theorem encodeProbe_length (direction : ProbeDirection) (timestampMs : ℕ)
    (h : nonce.length = 8) : (encodeProbe mac path direction timestampMs nonce).length = probeLen := by
  simp [encodeProbe, probeBody_length direction timestampMs h, probeTag, probeTagLen, probeLen]

theorem encodeProbe_take (direction : ProbeDirection) (timestampMs : ℕ) (h : nonce.length = 8) :
    (encodeProbe mac path direction timestampMs nonce).take 38 = probeBody path direction timestampMs nonce := by
  exact List.take_left' (probeBody_length direction timestampMs h)

theorem encodeProbe_drop (direction : ProbeDirection) (timestampMs : ℕ)
    (h : nonce.length = 8) : (encodeProbe mac path direction timestampMs nonce).drop 38 =
      probeTag mac path (probeBody path direction timestampMs nonce) := by
  exact List.drop_left' (probeBody_length direction timestampMs h)

theorem encodeProbe_direction (direction : ProbeDirection) (timestampMs : ℕ) (nonce : Bytes) :
    (encodeProbe mac path direction timestampMs nonce).getD 5 0 = direction.byte := rfl

theorem nonceOf_encodeProbe (direction : ProbeDirection) (timestampMs : ℕ)
    (h : nonce.length = 8) : nonceOf (encodeProbe mac path direction timestampMs nonce) = nonce := by
  simp [nonceOf, slice, encodeProbe, probeBody, probeMagic, List.drop_append, List.take_append, h]

theorem timestampOf_encodeProbe (direction : ProbeDirection) {timestampMs : ℕ} (nonce : Bytes)
    (h : timestampMs < 2 ^ 64) :
    timestampOf (encodeProbe mac path direction timestampMs nonce) = timestampMs := by
  have hs : slice (encodeProbe mac path direction timestampMs nonce) 22 30 = beBytes 8 timestampMs := by
    simp [slice, encodeProbe, probeBody, probeMagic]
  rw [timestampOf, hs, readBe_beBytes_of_lt h]

/-- What an accepted datagram is made of. -/
theorem verifyProbe_some {bytes : Bytes} {expected : ProbeDirection} {nowMs : ℕ} {seen : List Bytes}
    {probe : Probe} (h : (verifyProbe mac path bytes expected nowMs seen).1 = some probe) :
    bytes.length = probeLen ∧ bytes.getD 5 0 = expected.byte ∧
      bytes.drop 38 = probeTag mac path (bytes.take 38) ∧
      max nowMs (timestampOf bytes) - min nowMs (timestampOf bytes) ≤ probeTimeWindowMs ∧
      probe = ⟨expected,timestampOf bytes,nonceOf bytes⟩ := by
  unfold verifyProbe at h
  split at h
  · cases h
  next hhead =>
  simp only [ne_eq, not_or, not_not] at hhead
  split at h
  · cases h
  · next direction hdir =>
    have hbyte : bytes.getD 5 0 = direction.byte := by
      unfold ProbeDirection.fromByte at hdir
      split_ifs at hdir with h1 h2 <;> cases hdir
      · exact h1
      · exact h2
    simp only at h
    split_ifs at h with hexp htag htime hseen
    cases h
    rw [Bool.not_eq_false, constantTimeEq_iff] at htag
    have hexp := not_not.mp hexp
    exact ⟨hhead.1,hexp ▸ hbyte,htag.symm,not_lt.mp htime,by rw [hexp]; rfl⟩

/-- A peer accepts what was encoded, in its time and once. -/
theorem verifyProbe_encodeProbe {direction : ProbeDirection} {timestampMs nowMs : ℕ}
    (hn : nonce.length = 8) (ht : timestampMs < 2 ^ 64)
    (hw : max nowMs timestampMs - min nowMs timestampMs ≤ probeTimeWindowMs) {seen : List Bytes} (hs : nonce ∉ seen) :
    (verifyProbe mac path (encodeProbe mac path direction timestampMs nonce) direction nowMs seen).1 =
      some ⟨direction,timestampMs,nonce⟩ := by
  have hpath : slice (encodeProbe mac path direction timestampMs nonce) 6 22 = path.pathSession.toList := by
    simp [slice, encodeProbe, probeBody, probeMagic]
  have htag : constantTimeEq (probeTag mac path ((encodeProbe mac path direction timestampMs nonce).take 38))
      ((encodeProbe mac path direction timestampMs nonce).drop 38) = true := by
    rw [constantTimeEq_iff, encodeProbe_take direction timestampMs hn, encodeProbe_drop direction timestampMs hn]
  have htime : readBe (slice (encodeProbe mac path direction timestampMs nonce) 22 30) = timestampMs :=
    timestampOf_encodeProbe direction nonce ht
  have hnonce : slice (encodeProbe mac path direction timestampMs nonce) 30 38 = nonce :=
    nonceOf_encodeProbe direction timestampMs hn
  unfold verifyProbe
  rw [if_neg (by simp [encodeProbe_length direction timestampMs hn, hpath]; exact ⟨rfl,rfl⟩),
    encodeProbe_direction, ProbeDirection.fromByte_byte]
  simp [htag, htime, hnonce, Nat.not_lt.mpr hw, hs]

end Lemmas

end Unpeel.Remote
