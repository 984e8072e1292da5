import Mathlib.Data.Fintype.Basic
import Mathlib.Data.List.TakeWhile
import Mathlib.Tactic.FinCases
import Unpeel.Manifest.Record

/-! # The text of a marker

A marker holds one JSON object whose values are strings and numbers. This is the text that
`serde_json` writes for it, and a reader that takes it back.
-/
namespace Unpeel.Markers
open Manifest List

inductive FieldValue where
  | str (text : Text)
  | num (n : ℕ)
deriving DecidableEq

def FieldValue.asStr : FieldValue → Option Text
  | .str text => some text
  | .num _ => none

abbrev Body := List (Text × FieldValue)

section Strings

def escapeChar (c : Char) : Text :=
  if c = '"' then ['\\','"']
  else if c = '\\' then ['\\','\\']
  else if c.toNat = 0x08 then ['\\','b']
  else if c.toNat = 0x09 then ['\\','t']
  else if c.toNat = 0x0A then ['\\','n']
  else if c.toNat = 0x0C then ['\\','f']
  else if c.toNat = 0x0D then ['\\','r']
  else if c.toNat < 0x20 then ['\\','u','0','0',(c.toNat / 16).digitChar,(c.toNat % 16).digitChar]
  else [c]

def unescapeChar (c : Char) : Char :=
  if c = 'b' then Char.ofNat 0x08
  else if c = 't' then Char.ofNat 0x09
  else if c = 'n' then Char.ofNat 0x0A
  else if c = 'f' then Char.ofNat 0x0C
  else if c = 'r' then Char.ofNat 0x0D
  else c

def hexValue (c : Char) : ℕ := if c.toNat < 0x40 then c.toNat - 0x30 else c.toNat - 0x57

def readString : List Char → Option (Text × List Char)
  | '"' :: rest => some ([],rest)
  | '\\' :: 'u' :: '0' :: '0' :: high :: low :: rest =>
    (readString rest).map fun (text,rest) => (Char.ofNat (16 * hexValue high + hexValue low) :: text,rest)
  | '\\' :: c :: rest => (readString rest).map fun (text,rest) => (unescapeChar c :: text,rest)
  | c :: rest => (readString rest).map fun (text,rest) => (c :: text,rest)
  | [] => none

def writeString (text : Text) : Text := '"' :: text.flatMap escapeChar ++ ['"']

theorem readString_control (n : Fin 32) (rest : List Char) :
    readString (escapeChar (Char.ofNat n) ++ rest) =
      (readString rest).map fun (text,rest) => (Char.ofNat n :: text,rest) := by
  fin_cases n <;> rfl

theorem readString_escapeChar (c : Char) (rest : List Char) :
    readString (escapeChar c ++ rest) = (readString rest).map fun (text,rest) => (c :: text,rest) := by
  by_cases hcontrol : c.toNat < 0x20
  · have h := readString_control ⟨c.toNat,hcontrol⟩ rest
    rwa [show Char.ofNat c.toNat = c from Char.ofNat_toNat c] at h
  · by_cases hquote : c = '"'
    · subst hquote
      rfl
    · by_cases hslash : c = '\\'
      · subst hslash
        rfl
      · have hplain : escapeChar c = [c] := by
          unfold escapeChar
          rw [if_neg hquote, if_neg hslash, if_neg (by omega), if_neg (by omega), if_neg (by omega), if_neg (by omega),
            if_neg (by omega), if_neg hcontrol]
        rw [hplain, singleton_append, readString]
        · exact hquote
        · exact fun _ _ _ hno => absurd hno hslash
        · exact fun _ _ hno => absurd hno hslash

theorem readString_flatMap (text : Text) (rest : List Char) :
    readString (text.flatMap escapeChar ++ '"' :: rest) = some (text,rest) := by
  induction text with
  | nil => rfl
  | cons c text ih =>
    rw [flatMap_cons, append_assoc, readString_escapeChar, ih]
    rfl

end Strings

section Objects

def writeValue : FieldValue → Text
  | .str text => writeString text
  | .num n => Nat.toDigits 10 n

def writeField (field : Text × FieldValue) : Text := writeString field.1 ++ ':' :: writeValue field.2

def writeFields : Body → Text
  | [] => ['\x7d']
  | [field] => writeField field ++ ['\x7d']
  | field :: rest => writeField field ++ ',' :: writeFields rest

/-- `to_vec` of an object. -/
def toVec (body : Body) : Text := '\x7b' :: writeFields body

def readValue : List Char → Option (FieldValue × List Char)
  | '"' :: rest => (readString rest).map fun (text,rest) => (.str text,rest)
  | content =>
    match content.takeWhile Char.isDigit with
    | [] => none
    | digits => some (.num (Nat.ofDigitChars 10 digits 0),content.dropWhile Char.isDigit)

def expect (c : Char) : List Char → Option (List Char)
  | d :: rest => if d = c then some rest else none
  | [] => none

def readField (content : List Char) : Option ((Text × FieldValue) × List Char) := do
  let rest ← expect '"' content
  let (key,rest) ← readString rest
  let rest ← expect ':' rest
  let (value,rest) ← readValue rest
  return ((key,value),rest)

/-- The fields up to the closing brace, at most `fuel` of them. -/
def readFields : ℕ → List Char → Option Body
  | 0, _ => none
  | _ + 1, '\x7d' :: _ => some []
  | fuel + 1, content =>
    match readField content with
    | some (field,',' :: rest) => (readFields fuel rest).map (field :: ·)
    | some (field,'\x7d' :: _) => some [field]
    | _ => none

def fromSlice : List Char → Option Body
  | '\x7b' :: rest => readFields (rest.length + 1) rest
  | _ => none

theorem readString_writeString (text : Text) (rest : List Char) :
    (expect '"' (writeString text ++ rest)).bind readString = some (text,rest) := by
  rw [writeString, cons_append, cons_append, append_assoc]
  exact readString_flatMap text rest

theorem readValue_writeValue (value : FieldValue) {c : Char} (hc : c.isDigit = false) (rest : List Char) :
    readValue (writeValue value ++ c :: rest) = some (value,c :: rest) := by
  cases value with
  | str text =>
    rw [writeValue, writeString, cons_append, cons_append, append_assoc]
    show (readString _).map _ = _
    rw [singleton_append, readString_flatMap]
    rfl
  | num n =>
    have hdigits : ∀ d ∈ Nat.toDigits 10 n, d.isDigit = true := fun d hd => Nat.isDigit_of_mem_toDigits (by decide) (by decide) hd
    have htake : (writeValue (.num n) ++ c :: rest).takeWhile Char.isDigit = Nat.toDigits 10 n := by
      rw [writeValue, takeWhile_append_of_pos hdigits, takeWhile_cons_of_neg (by rw [hc]; exact Bool.false_ne_true),
        append_nil]
    have hdrop : (writeValue (.num n) ++ c :: rest).dropWhile Char.isDigit = c :: rest := by
      rw [writeValue, dropWhile_append_of_pos hdigits, dropWhile_cons_of_neg (by rw [hc]; exact Bool.false_ne_true)]
    have hne : Nat.toDigits 10 n ≠ [] := Nat.toDigits_ne_nil
    obtain ⟨d,digits,hcons⟩ := exists_cons_of_ne_nil hne
    have hquote : d ≠ '"' := by
      rintro rfl
      exact absurd (hdigits '"' (by rw [hcons]; exact mem_cons_self)) (by decide)
    unfold readValue
    split
    · rename_i hcontent
      rw [writeValue, hcons] at hcontent
      cases hcontent
      exact absurd rfl hquote
    · rw [htake, hdrop, hcons]
      show some (FieldValue.num (Nat.ofDigitChars 10 (d :: digits) 0),_) = _
      rw [← hcons, Nat.ofDigitChars_ten_toDigits]

theorem readField_writeField (field : Text × FieldValue) {c : Char} (hc : c.isDigit = false) (rest : List Char) :
    readField (writeField field ++ c :: rest) = some (field,c :: rest) := by
  obtain ⟨key,value⟩ := field
  have hkey := readString_writeString key (':' :: (writeValue value ++ c :: rest))
  obtain ⟨opened,hopened,hread⟩ := Option.bind_eq_some_iff.mp hkey
  unfold readField writeField
  rw [append_assoc, cons_append]
  have hcolon : expect ':' (':' :: (writeValue value ++ c :: rest)) = some (writeValue value ++ c :: rest) := rfl
  simp only [Option.bind_eq_bind, hopened, Option.bind_some, hread, hcolon, readValue_writeValue value hc]
  rfl

theorem writeField_ne_brace (field : Text × FieldValue) (rest tail : List Char) :
    writeField field ++ rest ≠ '\x7d' :: tail := by
  intro h
  cases h

theorem length_le_writeFields (body : Body) : body.length ≤ (writeFields body).length := by
  induction body with
  | nil => exact Nat.zero_le _
  | cons field rest ih =>
    cases rest with
    | nil =>
      exact Nat.le_add_left 1 _
    | cons second rest =>
      have hwrite : writeFields (field :: second :: rest) = writeField field ++ ',' :: writeFields (second :: rest) := rfl
      have hcomma : (',' :: writeFields (second :: rest)).length = (writeFields (second :: rest)).length + 1 := rfl
      rw [hwrite, length_append, hcomma, length_cons]
      omega

theorem readFields_writeFields {body : Body} {fuel : ℕ} (h : body.length < fuel) :
    readFields fuel (writeFields body) = some body := by
  induction body generalizing fuel with
  | nil =>
    obtain ⟨fuel,rfl⟩ := Nat.exists_eq_succ_of_ne_zero (Nat.ne_of_gt h)
    rfl
  | cons field rest ih =>
    obtain ⟨fuel,rfl⟩ := Nat.exists_eq_succ_of_ne_zero (Nat.ne_of_gt (Nat.zero_lt_of_lt h))
    cases rest with
    | nil =>
      rw [writeFields, readFields, readField_writeField field rfl]
      · rfl
      · exact fun tail hno => absurd hno (writeField_ne_brace field _ tail)
    | cons second rest =>
      rw [writeFields, readFields, readField_writeField field rfl]
      · show (readFields fuel _).map _ = _
        rw [ih (by rw [length_cons] at h; omega)]
        rfl
      · exact fun tail hno => absurd hno (writeField_ne_brace field _ tail)
      · exact cons_ne_nil _ _

/-- The text is read back as it was written. -/
theorem fromSlice_toVec (body : Body) : fromSlice (toVec body) = some body :=
  readFields_writeFields (Nat.lt_succ_of_le (length_le_writeFields body))

end Objects

end Unpeel.Markers
