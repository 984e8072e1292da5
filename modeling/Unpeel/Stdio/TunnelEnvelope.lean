import Mathlib.Data.List.TakeWhile
import Unpeel.Foundation.Base64
import Unpeel.Foundation.Fallible
import Unpeel.Manifest.Record
import Unpeel.Remote.RelayCrypto

/-! # Requests and responses inside a frame

Both are JSON objects with a numeric id. How JSON text is read is an argument; the text of a
response is written out, so its length is known.
-/
namespace Unpeel.Stdio
open Manifest Remote Fallible

inductive JsonValue where
  | null
  | bool (b : Bool)
  | unsigned (n : UInt64)
  -- negative numbers and fractions, as they are written
  | number (raw : Text)
  | str (s : Text)
  | arr (values : List JsonValue)
  | obj (fields : List (Text × JsonValue))

namespace JsonValue

def get (key : String) : JsonValue → Option JsonValue
  | .obj fields => (fields.find? (·.1 = key.toList)).map (·.2)
  | _ => none

def asU64 : JsonValue → Option UInt64
  | .unsigned n => some n
  | _ => none

def asStr : JsonValue → Option Text
  | .str s => some s
  | _ => none

def isObject : JsonValue → Bool
  | .obj _ => true
  | _ => false

end JsonValue

structure TunnelRequest where
  id : UInt64
  method : Text
  path : Text
  query : List (Text × Text)
  auth : Option Text
  contentType : Option Text
  body : Bytes
deriving DecidableEq

section Requests
variable (fromSlice : Bytes → Option JsonValue)

def queryOf (envelope : JsonValue) : Except String (List (Text × Text)) :=
  match envelope.get "query" with
  | none | some .null => .ok []
  | some (.obj query) => query.mapM fun (key,value) =>
    match value.asStr with
    | some value => .ok (key,value)
    | none => .error "query values must be strings"
  | some _ => .error "query must be an object"

def optionalString (envelope : JsonValue) (key : String) : Except String (Option Text) :=
  match envelope.get key with
  | none | some .null => .ok none
  | some (.str value) => .ok (some value)
  | some _ => .error (key ++ " must be a string")

def orError {α : Type} (value : Option α) (message : String) : Except String α := value.elim (.error message) .ok

def bodyOf (envelope : JsonValue) : Except String Bytes := do
  let text ← optionalString envelope "bodyB64"
  match text with
  | some text => orError (Base64.decode text) "bodyB64 is not valid base64"
  | none => pure []

def parseTunnelRequestStrict (plaintext : Bytes) : Except String TunnelRequest := do
  let value ← orError (fromSlice plaintext) "request is not valid JSON"
  if value.isObject then do
    let query ← queryOf value
    let body ← bodyOf value
    let id ← orError ((value.get "id").bind JsonValue.asU64) "id must be an unsigned integer"
    let method ← orError ((value.get "method").bind JsonValue.asStr) "method must be a string"
    let path ← orError ((value.get "path").bind JsonValue.asStr) "path must be a string"
    let auth ← optionalString value "auth"
    let contentType ← optionalString value "contentType"
    pure ⟨id,method,path,query,auth,contentType,body⟩
  else throw "request envelope must be an object"

def parseableRequestId (payload : Bytes) : Option UInt64 :=
  (fromSlice payload).bind fun value => (value.get "id").bind JsonValue.asU64

variable {fromSlice}

theorem orError_eq_ok {α : Type} {value : Option α} {message : String} {a : α} (h : orError value message = .ok a) :
    value = some a := by
  cases value with
  | none => cases h
  | some b =>
    cases h
    rfl

theorem parseableRequestId_of_parse {payload : Bytes} {request : TunnelRequest}
    (h : parseTunnelRequestStrict fromSlice payload = .ok request) : parseableRequestId fromSlice payload = some request.id := by
  obtain ⟨value,hvalue,h⟩ := bind_eq_ok h
  split at h
  · obtain ⟨query,-,h⟩ := bind_eq_ok h
    obtain ⟨body,-,h⟩ := bind_eq_ok h
    obtain ⟨id,hid,h⟩ := bind_eq_ok h
    obtain ⟨method,-,h⟩ := bind_eq_ok h
    obtain ⟨path,-,h⟩ := bind_eq_ok h
    obtain ⟨auth,-,h⟩ := bind_eq_ok h
    obtain ⟨contentType,-,h⟩ := bind_eq_ok h
    cases h
    unfold parseableRequestId
    rw [orError_eq_ok hvalue, Option.bind_some, orError_eq_ok hid]
  · cases h

end Requests

section Responses
variable {c : Char}
variable {body : Bytes}

def ascii (text : Text) : Bytes := text.map fun c => UInt8.ofNat c.toNat

def bodyText (body : Bytes) : Text := if body = [] then "null".toList else '"' :: Base64.encode body ++ ['"']

def encodeTunnelResponse (id : UInt64) (status : UInt16) (body : Bytes) : Bytes :=
  ascii ("\x7b\"bodyB64\":".toList ++ bodyText body ++ ",\"id\":".toList ++ Nat.toDigits 10 id.toNat ++
    ",\"status\":".toList ++ Nat.toDigits 10 status.toNat ++ ['\x7d'])

def responseTooLarge : Bytes := ascii "\x7b\"error\":\"response too large\"\x7d".toList

def encodeBoundedTunnelResponse (id : UInt64) (status : UInt16) (body : Bytes) : Bytes :=
  let response := encodeTunnelResponse id status body
  if plaintextFrameFits response.length then response else encodeTunnelResponse id 413 responseTooLarge

theorem length_toDigits_u64 (id : UInt64) : (Nat.toDigits 10 id.toNat).length ≤ 20 := by
  rw [Nat.length_toDigits_le_iff (by decide) (by decide)]
  exact Nat.lt_trans id.toNat_lt (by decide)

theorem length_toDigits_u16 (status : UInt16) : (Nat.toDigits 10 status.toNat).length ≤ 5 := by
  rw [Nat.length_toDigits_le_iff (by decide) (by decide)]
  exact Nat.lt_trans status.toNat_lt (by decide)

theorem length_encodeTunnelResponse (id : UInt64) (status : UInt16) (body : Bytes) :
    (encodeTunnelResponse id status body).length = 28 + (bodyText body).length + (Nat.toDigits 10 id.toNat).length +
      (Nat.toDigits 10 status.toNat).length := by
  unfold encodeTunnelResponse ascii
  rw [List.length_map]
  simp only [List.length_append]
  have h1 : "\x7b\"bodyB64\":".toList.length = 11 := rfl
  have h2 : ",\"id\":".toList.length = 6 := rfl
  have h3 : ",\"status\":".toList.length = 10 := rfl
  have h4 : ['\x7d'].length = 1 := rfl
  omega

theorem replacement_fits (id : UInt64) : plaintextFrameFits (encodeTunnelResponse id 413 responseTooLarge).length = true := by
  have hid := length_toDigits_u64 id
  have hstatus := length_toDigits_u16 413
  have hbody : (bodyText responseTooLarge).length = 42 := by decide +kernel
  have hmax : maxPlaintextBytes = 524264 := rfl
  apply decide_eq_true
  rw [length_encodeTunnelResponse, hbody, hmax]
  omega

theorem encodeBounded_fits (id : UInt64) (status : UInt16) (body : Bytes) :
    encodeBoundedTunnelResponse id status body ≠ [] ∧
      (encodeBoundedTunnelResponse id status body).length ≤ maxPlaintextBytes := by
  have hne : ∀ status body, encodeTunnelResponse id status body ≠ [] := by
    intro status body h
    have hlength := length_encodeTunnelResponse id status body
    rw [h, List.length_nil] at hlength
    omega
  unfold encodeBoundedTunnelResponse
  dsimp only
  split
  · rename_i hfits
    exact ⟨hne _ _,of_decide_eq_true hfits⟩
  · exact ⟨hne _ _,of_decide_eq_true (replacement_fits id)⟩

theorem mem_bodyText (h : c ∈ bodyText body) : c.toNat < 128 := by
  have halphabet : (('=' :: Base64.alphabet).all fun c => c.toNat < 128) = true := by decide +kernel
  unfold bodyText at h
  split at h
  · have hnull : ∀ c ∈ "null".toList, c.toNat < 128 := by simp
    exact hnull c h
  · rcases List.mem_append.mp h with h | h
    · rcases List.mem_cons.mp h with rfl | h
      · decide
      · simpa using List.all_eq_true.mp halphabet c (Base64.mem_encode h)
    · rw [List.mem_singleton.mp h]
      decide

theorem isDigit_toDigits {n : ℕ} (h : c ∈ Nat.toDigits 10 n) : c.isDigit = true :=
  Nat.isDigit_of_mem_toDigits (by decide) (by decide) h

theorem toNat_lt_of_isDigit (h : c.isDigit = true) : c.toNat < 128 := by
  unfold Char.isDigit at h
  rw [Bool.and_eq_true, decide_eq_true_eq, decide_eq_true_eq] at h
  have hle : c.toNat ≤ 57 := h.2
  omega

theorem mem_responseText {id : UInt64} {status : UInt16}
    (h : c ∈ "\x7b\"bodyB64\":".toList ++ bodyText body ++ ",\"id\":".toList ++ Nat.toDigits 10 id.toNat ++
      ",\"status\":".toList ++ Nat.toDigits 10 status.toNat ++ ['\x7d']) : c.toNat < 128 := by
  have hkeys : ∀ c ∈ "\x7b\"bodyB64\":".toList ++ ",\"id\":".toList ++ ",\"status\":".toList ++ ['\x7d'], c.toNat < 128 := by simp
  have hdigits : ∀ (n : ℕ), ∀ c ∈ Nat.toDigits 10 n, c.toNat < 128 := fun n c hc => toNat_lt_of_isDigit (isDigit_toDigits hc)
  simp only [List.mem_append] at h hkeys
  rcases h with (((((h | h) | h) | h) | h) | h) | h
  · exact hkeys c (.inl (.inl (.inl h)))
  · exact mem_bodyText h
  · exact hkeys c (.inl (.inl (.inr h)))
  · exact hdigits _ c h
  · exact hkeys c (.inl (.inr h))
  · exact hdigits _ c h
  · exact hkeys c (.inr h)

end Responses

end Unpeel.Stdio
