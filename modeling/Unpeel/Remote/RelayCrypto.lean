import Unpeel.Foundation.BigEndian

/-! # The sessions of the relay protocol

Host and client each seal with the key and the tag of their own direction. The
counter of a frame is its nonce, and a receiver only takes larger counters than
those it has taken. The cipher itself is an argument.
-/
namespace Unpeel.Remote
open BigEndian

abbrev Bytes := List UInt8

instance : LawfulBEq Bytes := inferInstance

def maxFrameBytes : ℕ := 512 * 1024
def aeadOverheadBytes : ℕ := 8 + 16
def maxSealedBytes : ℕ := maxFrameBytes
def maxPlaintextBytes : ℕ := maxSealedBytes - aeadOverheadBytes

def plaintextFrameFits (byteCount : ℕ) : Bool := byteCount ≤ maxPlaintextBytes

inductive CryptoError where
  | handshakeFailed
  | plaintextTooLarge
  | counterExhausted
  | sealFailed
  | openFailed
  | replayDetected
deriving DecidableEq

def CryptoError.message : CryptoError → String
  | .handshakeFailed => "handshake failed"
  | .plaintextTooLarge => "relay plaintext frame too large"
  | .counterExhausted => "counter exhausted"
  | .sealFailed => "seal failed"
  | .openFailed => "open failed"
  | .replayDetected => "replay detected"

inductive Side where
  | host
  | client
deriving DecidableEq

def Side.other : Side → Side
  | .host => .client
  | .client => .host

/-- The tag of the frames a side sends: `h2c!` and `c2h!`. -/
def Side.tag : Side → Bytes
  | .host => [0x68,0x32,0x63,0x21]
  | .client => [0x63,0x32,0x68,0x21]

structure CryptoSession where
  sendKey : Bytes
  receiveKey : Bytes
  sendTag : Bytes
  receiveTag : Bytes
  sendCounter : ℕ
  lastReceived : ℕ

namespace CryptoSession

/-- `CryptoSession::new`, `deriveKey` being HKDF of a key, a salt and a label. -/
def new (deriveKey : Bytes → Bytes → String → Bytes) (e2eKey shared clientSalt hostSalt : Bytes)
    (side : Side) : Except CryptoError CryptoSession :=
  if e2eKey.length ≠ 32 ∨ shared.length ≠ 32 ∨ clientSalt.length ≠ 16 ∨ hostSalt.length ≠ 16 then
    .error .handshakeFailed
  else
    let c2h := deriveKey (e2eKey ++ shared) (clientSalt ++ hostSalt) "unpeel-relay-v1:c2h"
    let h2c := deriveKey (e2eKey ++ shared) (clientSalt ++ hostSalt) "unpeel-relay-v1:h2c"
    match side with
    | .host => .ok ⟨h2c,c2h,Side.host.tag,Side.client.tag,0,0⟩
    | .client => .ok ⟨c2h,h2c,Side.client.tag,Side.host.tag,0,0⟩

def nonce (tag : Bytes) (counter : ℕ) : Bytes := tag ++ beBytes 8 counter

/-- `seal`; the cipher gives the ciphertext with its tag, or fails. -/
def sealFrame (session : CryptoSession) (cipher : Bytes → Bytes → Bytes → Option Bytes) (plaintext : Bytes) :
    CryptoSession × Except CryptoError Bytes :=
  if plaintextFrameFits plaintext.length = false then (session,.error .plaintextTooLarge)
  -- `checked_add` of a 64-bit counter
  else if 2 ^ 64 ≤ session.sendCounter + 1 then (session,.error .counterExhausted)
  else
    let counted := { session with sendCounter := session.sendCounter + 1 }
    match cipher counted.sendKey (nonce counted.sendTag counted.sendCounter) plaintext with
    | none => (counted,.error .sealFailed)
    | some body => (counted,.ok (beBytes 8 counted.sendCounter ++ body))

/-- `open`; the cipher gives the plaintext, or fails. -/
def openFrame (session : CryptoSession) (cipher : Bytes → Bytes → Bytes → Option Bytes) (frame : Bytes) :
    CryptoSession × Except CryptoError Bytes :=
  if frame.length < 8 + 16 then (session,.error .openFailed)
  else
    let counter := readBe (frame.take 8)
    if counter ≤ session.lastReceived then (session,.error .replayDetected)
    else match cipher session.receiveKey (nonce session.receiveTag counter) (frame.drop 8) with
      | none => (session,.error .openFailed)
      | some plaintext => ({ session with lastReceived := counter },.ok plaintext)

/-- A rejected `open`, and a `seal` that is rejected for its size or its counter,
change nothing. -/
structure RejectsQuietly (session : CryptoSession) : Prop where
  opening : ∀ cipher frame error, (session.openFrame cipher frame).2 = .error error →
    (session.openFrame cipher frame).1 = session
  sealing : ∀ cipher plaintext error, (session.sealFrame cipher plaintext).2 = .error error →
    error ≠ .sealFailed → (session.sealFrame cipher plaintext).1 = session

theorem sealFrame_cases (session : CryptoSession) (cipher : Bytes → Bytes → Bytes → Option Bytes)
    (plaintext : Bytes) :
    (∃ error, error ≠ .sealFailed ∧ session.sealFrame cipher plaintext = (session,.error error)) ∨
    (session.sendCounter + 1 < 2 ^ 64 ∧
      session.sealFrame cipher plaintext =
        ({ session with sendCounter := session.sendCounter + 1 },
          match cipher session.sendKey (nonce session.sendTag (session.sendCounter + 1)) plaintext with
          | none => .error .sealFailed
          | some body => .ok (beBytes 8 (session.sendCounter + 1) ++ body))) := by
  unfold sealFrame
  split
  · exact .inl ⟨_,by decide,rfl⟩
  · split
    · exact .inl ⟨_,by decide,rfl⟩
    · next hlt =>
      refine .inr ⟨by omega,?_⟩
      simp only
      split <;> simp_all

theorem openFrame_cases (session : CryptoSession) (cipher : Bytes → Bytes → Bytes → Option Bytes)
    (frame : Bytes) :
    (∃ error, session.openFrame cipher frame = (session,.error error)) ∨
    (∃ plaintext, 8 ≤ frame.length ∧ session.lastReceived < readBe (frame.take 8) ∧
      cipher session.receiveKey (nonce session.receiveTag (readBe (frame.take 8))) (frame.drop 8) =
        some plaintext ∧
      session.openFrame cipher frame =
        ({ session with lastReceived := readBe (frame.take 8) },.ok plaintext)) := by
  unfold openFrame
  split
  · exact .inl ⟨_,rfl⟩
  · next hlen =>
    simp only
    split
    · exact .inl ⟨_,rfl⟩
    · next hlt =>
      split
      · exact .inl ⟨_,rfl⟩
      · next plaintext hc => exact .inr ⟨plaintext,by omega,by omega,hc,rfl⟩

theorem rejectsQuietly (session : CryptoSession) : session.RejectsQuietly where
  opening cipher frame error h := by
    rcases session.openFrame_cases cipher frame with ⟨e,he⟩ | ⟨plaintext,-,-,-,he⟩
    · rw [he]
    · rw [he] at h
      cases h
  sealing cipher plaintext error h hne := by
    rcases session.sealFrame_cases cipher plaintext with ⟨e,-,he⟩ | ⟨-,he⟩
    · rw [he]
    · rw [he] at h
      simp only at h
      split at h
      · cases h
        exact absurd rfl hne
      · cases h

theorem nonce_inj {a b : Side} {m n : ℕ} (hm : m < 2 ^ 64) (hn : n < 2 ^ 64)
    (h : nonce a.tag m = nonce b.tag n) : a = b ∧ m = n := by
  have hlen : a.tag.length = b.tag.length := by cases a <;> cases b <;> rfl
  obtain ⟨htag,hbytes⟩ := List.append_inj h hlen
  refine ⟨?_,beBytes_inj hm hn hbytes⟩
  cases a <;> cases b <;> first | rfl | cases htag

end CryptoSession

end Unpeel.Remote
