import Unpeel.Foundation.Utf8
import Unpeel.Stdio.TunnelEnvelope

/-! # JSON text

What `serde_json` writes for a value, without blanks and with the fields in the order of their
keys. Other JSON readers than the one here read more than such text, but agree on it.
-/
namespace Unpeel.Stdio
open Manifest Remote List

def keyBefore : Text → Text → Bool
  | _, [] => false
  | [], _ :: _ => true
  | c :: s, d :: t => c.toNat < d.toNat || c = d && keyBefore s t

def hexDigit (n : ℕ) : Char := "0123456789abcdef".toList.getD n '0'

def escaped (c : Char) : Text :=
  if c = '"' then ['\\','"']
  else if c = '\\' then ['\\','\\']
  else if c = '\x08' then ['\\','b']
  else if c = '\x0c' then ['\\','f']
  else if c = '\n' then ['\\','n']
  else if c = '\r' then ['\\','r']
  else if c = '\t' then ['\\','t']
  else if c.toNat < 32 then ['\\','u','0','0',hexDigit (c.toNat / 16),hexDigit (c.toNat % 16)]
  else [c]

def stringText (s : Text) : Text := s.flatMap escaped ++ ['"']

namespace JsonValue

mutual

def text : JsonValue → Text
  | .null => "null".toList
  | .bool true => "true".toList
  | .bool false => "false".toList
  | .unsigned n => Nat.toDigits 10 n.toNat
  | .number raw => raw
  | .str s => '"' :: stringText s
  | .arr [] => ['[',']']
  | .arr (value :: values) => '[' :: text value ++ valuesText values
  | .obj [] => ['\x7b','\x7d']
  | .obj ((key,value) :: fields) => '\x7b' :: '"' :: stringText key ++ ':' :: text value ++ fieldsText fields

def valuesText : List JsonValue → Text
  | [] => [']']
  | value :: values => ',' :: text value ++ valuesText values

def fieldsText : List (Text × JsonValue) → Text
  | [] => ['\x7d']
  | (key,value) :: fields => ',' :: '"' :: stringText key ++ ':' :: text value ++ fieldsText fields

end

/-- Values that come back from their text: no fractions, the fields of an object in order and
at most so many levels deep. -/
inductive Plain : ℕ → JsonValue → Prop where
  | null {n : ℕ} : Plain n .null
  | bool {n : ℕ} (b : Bool) : Plain n (.bool b)
  | unsigned {n : ℕ} (k : UInt64) : Plain n (.unsigned k)
  | str {n : ℕ} (s : Text) : Plain n (.str s)
  | arr {n : ℕ} {values : List JsonValue} (hvalues : ∀ value ∈ values, Plain n value) : Plain (n + 1) (.arr values)
  | obj {n : ℕ} {fields : List (Text × JsonValue)} (hkeys : fields.Pairwise fun f g => keyBefore f.1 g.1 = true)
      (hfields : ∀ field ∈ fields, Plain n field.2) : Plain (n + 1) (.obj fields)

def bytes (value : JsonValue) : Bytes := Utf8.encode value.text

section Reader

def unescaped : Char → Option Char
  | '"' => some '"'
  | '\\' => some '\\'
  | '/' => some '/'
  | 'b' => some '\x08'
  | 'f' => some '\x0c'
  | 'n' => some '\n'
  | 'r' => some '\r'
  | 't' => some '\t'
  | _ => none

def hexValue (c : Char) : Option ℕ := "0123456789abcdef".toList.findIdx? (· = c)

/-- The string up to its last quotation mark, and what is behind it. Only escapes of control
characters are read in hexadecimal. -/
def readString : Text → Option (Text × Text)
  | [] => none
  | '"' :: rest => some ([],rest)
  | '\\' :: 'u' :: '0' :: '0' :: a :: b :: rest => do
    let high ← hexValue a
    let low ← hexValue b
    let (s,rest) ← readString rest
    some (Char.ofNat (16 * high + low) :: s,rest)
  | '\\' :: c :: rest => do
    let c ← unescaped c
    let (s,rest) ← readString rest
    some (c :: s,rest)
  | c :: rest => do
    let (s,rest) ← readString rest
    some (c :: s,rest)

def readUnsigned (text : Text) : Option (JsonValue × Text) :=
  let n := Nat.ofDigitChars 10 (text.takeWhile Char.isDigit) 0
  if n < 18446744073709551616 then some (.unsigned (UInt64.ofNat n),text.dropWhile Char.isDigit) else none

mutual

/-- Each call has a character of its own, so the length of the text is enough fuel. -/
def readValue : ℕ → Text → Option (JsonValue × Text)
  | 0, _ => none
  | fuel + 1, text =>
    if text.head?.any Char.isDigit then readUnsigned text else
      match text with
      | 'n' :: 'u' :: 'l' :: 'l' :: rest => some (.null,rest)
      | 't' :: 'r' :: 'u' :: 'e' :: rest => some (.bool true,rest)
      | 'f' :: 'a' :: 'l' :: 's' :: 'e' :: rest => some (.bool false,rest)
      | '"' :: rest => do
        let (s,rest) ← readString rest
        some (.str s,rest)
      | '[' :: ']' :: rest => some (.arr [],rest)
      | '[' :: rest => do
        let (value,rest) ← readValue fuel rest
        let (values,rest) ← readValues fuel rest
        some (.arr (value :: values),rest)
      | '\x7b' :: '\x7d' :: rest => some (.obj [],rest)
      | '\x7b' :: '"' :: rest => do
        let (field,rest) ← readField fuel rest
        let (fields,rest) ← readFields fuel rest
        some (.obj (field :: fields),rest)
      | _ => none

def readValues : ℕ → Text → Option (List JsonValue × Text)
  | fuel + 1, ',' :: rest => do
    let (value,rest) ← readValue fuel rest
    let (values,rest) ← readValues fuel rest
    some (value :: values,rest)
  | _ + 1, ']' :: rest => some ([],rest)
  | _, _ => none

def readField : ℕ → Text → Option ((Text × JsonValue) × Text)
  | 0, _ => none
  | fuel + 1, text => do
    match ← readString text with
    | (key,':' :: rest) => do
      let (value,rest) ← readValue fuel rest
      some ((key,value),rest)
    | _ => none

def readFields : ℕ → Text → Option (List (Text × JsonValue) × Text)
  | fuel + 1, ',' :: '"' :: rest => do
    let (field,rest) ← readField fuel rest
    let (fields,rest) ← readFields fuel rest
    some (field :: fields,rest)
  | _ + 1, '\x7d' :: rest => some ([],rest)
  | _, _ => none

end

def readText (text : Text) : Option JsonValue := do
  let (value,rest) ← readValue text.length text
  if rest = [] then some value else none

def ofBytes (bytes : Bytes) : Option JsonValue := (Utf8.decode bytes).bind readText

end Reader

section RoundTrip
variable {rest : Text} {value : JsonValue}
variable {n : ℕ}

theorem hexValue_hexDigit (h : n < 16) : hexValue (hexDigit n) = some n := by
  revert n
  decide

/-- An escaped character is read as the character. -/
theorem readString_escaped (c : Char) (rest : Text) :
    readString (escaped c ++ rest) = (readString rest).map fun p => (c :: p.1,p.2) := by
  have hbind : ∀ d : Char, ((readString rest).bind fun p => some (d :: p.1,p.2)) = (readString rest).map fun p => (d :: p.1,p.2) :=
    fun d => Option.map_eq_bind.symm
  unfold escaped
  split_ifs with hquote hback hb hf hn hr ht hcontrol
  · subst hquote
    exact hbind '"'
  · subst hback
    exact hbind '\\'
  · subst hb
    exact hbind '\x08'
  · subst hf
    exact hbind '\x0c'
  · subst hn
    exact hbind '\n'
  · subst hr
    exact hbind '\r'
  · subst ht
    exact hbind '\t'
  · have hchar : Char.ofNat (16 * (c.toNat / 16) + c.toNat % 16) = c := by
      rw [Nat.div_add_mod, Char.ofNat_toNat]
    show (do
      let high ← hexValue (hexDigit (c.toNat / 16))
      let low ← hexValue (hexDigit (c.toNat % 16))
      let (s,rest) ← readString rest
      some (Char.ofNat (16 * high + low) :: s,rest)) = _
    rw [hexValue_hexDigit (by omega), hexValue_hexDigit (Nat.mod_lt _ (by decide))]
    simp only [Option.bind_eq_bind, Option.bind_some, hchar, hbind]
  · show readString (c :: rest) = _
    rw [readString.eq_5 c rest hquote (by intro _ _ _ h; exact absurd h hback) (by intro _ _ h; exact absurd h hback)]
    exact hbind c

theorem readString_stringText (s rest : Text) : readString (stringText s ++ rest) = some (s,rest) := by
  unfold stringText
  induction s with
  | nil => rfl
  | cons c s ih =>
    rw [flatMap_cons, append_assoc, append_assoc, readString_escaped, ← append_assoc, ih]
    rfl

def Ended (rest : Text) : Prop := rest.head?.any Char.isDigit = false

theorem takeWhile_digits (n : ℕ) (h : Ended rest) :
    (Nat.toDigits 10 n ++ rest).takeWhile Char.isDigit = Nat.toDigits 10 n ∧
      (Nat.toDigits 10 n ++ rest).dropWhile Char.isDigit = rest := by
  have hdigits : ∀ c ∈ Nat.toDigits 10 n, c.isDigit = true := fun c hc => isDigit_toDigits hc
  rw [takeWhile_append_of_pos hdigits, dropWhile_append_of_pos hdigits]
  cases rest with
  | nil => exact ⟨append_nil _,rfl⟩
  | cons c rest =>
    have hc : c.isDigit = false := h
    exact ⟨by rw [takeWhile_cons_of_neg (by simp [hc]), append_nil],by rw [dropWhile_cons_of_neg (by simp [hc])]⟩

theorem readUnsigned_digits (k : UInt64) (h : Ended rest) :
    readUnsigned (Nat.toDigits 10 k.toNat ++ rest) = some (.unsigned k,rest) := by
  obtain ⟨htake,hdrop⟩ := takeWhile_digits k.toNat h
  unfold readUnsigned
  rw [htake, hdrop, Nat.ofDigitChars_ten_toDigits, if_pos k.toNat_lt, UInt64.ofNat_toNat]

theorem text_cons (h : Plain n value) :
    ∃ c rest, value.text = c :: rest ∧ c ≠ ']' := by
  cases h with
  | null => exact ⟨'n',_,rfl,by decide⟩
  | bool b => cases b <;> exact ⟨_,_,rfl,by decide⟩
  | unsigned k =>
    obtain ⟨c,digits,hcons⟩ := List.exists_cons_of_ne_nil (Nat.toDigits_ne_nil : Nat.toDigits 10 k.toNat ≠ [])
    refine ⟨c,digits,by rw [text, hcons],?_⟩
    rintro rfl
    have hdigit : (']' : Char).isDigit = true := isDigit_toDigits (hcons ▸ List.mem_cons_self)
    exact absurd hdigit (by decide)
  | str s => exact ⟨'"',_,rfl,by decide⟩
  | arr hvalues => rename_i values; cases values <;> exact ⟨'[',_,rfl,by decide⟩
  | obj hkeys hfields => rename_i fields; rcases fields with _ | ⟨⟨key,value⟩,fields⟩ <;> exact ⟨'\x7b',_,rfl,by decide⟩

def Reads (value : JsonValue) : Prop := ∀ (fuel : ℕ) (rest : Text), value.text.length ≤ fuel → Ended rest →
  readValue fuel (value.text ++ rest) = some (value,rest)

theorem ended_valuesText (values : List JsonValue) (rest : Text) : Ended (valuesText values ++ rest) := by
  cases values <;> rfl

theorem ended_fieldsText (fields : List (Text × JsonValue)) (rest : Text) : Ended (fieldsText fields ++ rest) := by
  rcases fields with _ | ⟨⟨key,value⟩,fields⟩ <;> rfl

theorem readValues_text {values : List JsonValue} (h : ∀ value ∈ values, Reads value) (fuel : ℕ) (rest : Text)
    (hfuel : (valuesText values).length ≤ fuel) : readValues fuel (valuesText values ++ rest) = some (values,rest) := by
  induction values generalizing fuel with
  | nil =>
    obtain ⟨fuel,rfl⟩ : ∃ k, fuel = k + 1 := ⟨fuel - 1,by simp [valuesText] at hfuel; omega⟩
    rfl
  | cons value values ih =>
    simp only [valuesText, length_append, length_cons] at hfuel
    obtain ⟨fuel,rfl⟩ : ∃ k, fuel = k + 1 := ⟨fuel - 1,by omega⟩
    have hvalue := h value mem_cons_self fuel _ (by omega) (ended_valuesText values rest)
    rw [valuesText, append_assoc, cons_append, readValues, hvalue, Option.bind_eq_bind, Option.bind_some]
    dsimp only
    rw [ih (fun v hv => h v (mem_cons_of_mem value hv)) fuel (by omega)]
    rfl

theorem readField_text (h : Reads value) (key : Text) (fuel : ℕ)
    (hfuel : value.text.length < fuel) (hrest : Ended rest) :
    readField fuel (stringText key ++ ':' :: value.text ++ rest) = some ((key,value),rest) := by
  obtain ⟨fuel,rfl⟩ : ∃ k, fuel = k + 1 := ⟨fuel - 1,by omega⟩
  rw [readField, append_assoc, readString_stringText, Option.bind_eq_bind, Option.bind_some, cons_append]
  show ((readValue fuel (value.text ++ rest)).bind fun p => some ((key,p.1),p.2)) = _
  rw [h fuel rest (by omega) hrest, Option.bind_some]

theorem readFields_text {fields : List (Text × JsonValue)} (h : ∀ field ∈ fields, Reads field.2) (fuel : ℕ) (rest : Text)
    (hfuel : (fieldsText fields).length ≤ fuel) : readFields fuel (fieldsText fields ++ rest) = some (fields,rest) := by
  induction fields generalizing fuel with
  | nil =>
    obtain ⟨fuel,rfl⟩ : ∃ k, fuel = k + 1 := ⟨fuel - 1,by simp [fieldsText] at hfuel; omega⟩
    rfl
  | cons field fields ih =>
    obtain ⟨key,value⟩ := field
    simp only [fieldsText, length_append, length_cons] at hfuel
    obtain ⟨fuel,rfl⟩ : ∃ k, fuel = k + 1 := ⟨fuel - 1,by omega⟩
    have hfield := readField_text (h _ mem_cons_self) key fuel (by dsimp only; omega) (ended_fieldsText fields rest)
    have hshape : fieldsText ((key,value) :: fields) ++ rest =
        ',' :: '"' :: (stringText key ++ ':' :: value.text ++ (fieldsText fields ++ rest)) := by
      simp only [fieldsText, cons_append, append_assoc]
    rw [hshape, readFields, hfield, Option.bind_eq_bind, Option.bind_some]
    dsimp only
    rw [ih (fun f hf => h f (mem_cons_of_mem _ hf)) fuel (by omega)]
    rfl

theorem readValue_digits (fuel : ℕ) {text : Text} (h : text.head?.any Char.isDigit = true) :
    readValue (fuel + 1) text = readUnsigned text := by
  exact if_pos h

theorem readValue_array (fuel : ℕ) {c : Char} (h : c ≠ ']') :
    readValue (fuel + 1) ('[' :: c :: rest) = (readValue fuel (c :: rest)).bind fun p =>
      (readValues fuel p.2).bind fun q => some (.arr (p.1 :: q.1),q.2) := by
  rw [readValue.eq_def]
  split <;> simp_all

theorem reads_plain (h : Plain n value) : Reads value := by
  induction h with
  | null =>
    intro fuel rest hfuel _
    obtain ⟨fuel,rfl⟩ : ∃ k, fuel = k + 1 := ⟨fuel - 1,by simp [text] at hfuel; omega⟩
    rfl
  | bool b =>
    intro fuel rest hfuel _
    obtain ⟨fuel,rfl⟩ : ∃ k, fuel = k + 1 := ⟨fuel - 1,by cases b <;> simp [text] at hfuel <;> omega⟩
    cases b <;> rfl
  | unsigned k =>
    intro fuel rest hfuel hrest
    obtain ⟨c,digits,hcons⟩ := exists_cons_of_ne_nil (Nat.toDigits_ne_nil : Nat.toDigits 10 k.toNat ≠ [])
    have hc : c.isDigit = true := isDigit_toDigits (hcons ▸ mem_cons_self)
    rw [text, hcons, length_cons] at hfuel
    obtain ⟨fuel,rfl⟩ : ∃ k, fuel = k + 1 := ⟨fuel - 1,by omega⟩
    have hdigit : ((Nat.toDigits 10 k.toNat ++ rest).head?.any Char.isDigit) = true := by
      rw [hcons]
      exact hc
    rw [text, readValue_digits fuel hdigit, readUnsigned_digits k hrest]
  | str s =>
    intro fuel rest hfuel _
    rw [text, length_cons] at hfuel
    obtain ⟨fuel,rfl⟩ : ∃ k, fuel = k + 1 := ⟨fuel - 1,by omega⟩
    show ((readString (stringText s ++ rest)).bind fun p => some (str p.1,p.2)) = _
    rw [readString_stringText, Option.bind_some]
  | @arr n values hvalues ih =>
    intro fuel rest hfuel _
    cases values with
    | nil =>
      obtain ⟨fuel,rfl⟩ : ∃ k, fuel = k + 1 := ⟨fuel - 1,by simp [text] at hfuel; omega⟩
      rfl
    | cons value values =>
      simp only [text, length_append, length_cons] at hfuel
      obtain ⟨fuel,rfl⟩ : ∃ k, fuel = k + 1 := ⟨fuel - 1,by omega⟩
      have hvalue := ih value mem_cons_self fuel _ (by omega) (ended_valuesText values rest)
      have hmore := readValues_text (fun v hv => ih v (mem_cons_of_mem value hv)) fuel rest (by omega)
      obtain ⟨c,tail,hcons,hc⟩ := text_cons (hvalues value mem_cons_self)
      have hshape : (arr (value :: values)).text ++ rest = '[' :: c :: (tail ++ (valuesText values ++ rest)) := by
        simp only [text, hcons, cons_append, append_assoc]
      rw [hcons, cons_append] at hvalue
      rw [hshape, readValue_array fuel hc, hvalue, Option.bind_some]
      rw [hmore, Option.bind_some]
  | @obj n fields hkeys hfields ih =>
    intro fuel rest hfuel _
    rcases fields with _ | ⟨⟨key,value⟩,fields⟩
    · obtain ⟨fuel,rfl⟩ : ∃ k, fuel = k + 1 := ⟨fuel - 1,by simp [text] at hfuel; omega⟩
      rfl
    · simp only [text, length_append, length_cons] at hfuel
      obtain ⟨fuel,rfl⟩ : ∃ k, fuel = k + 1 := ⟨fuel - 1,by omega⟩
      have hfield := readField_text (ih _ mem_cons_self) key fuel (by dsimp only; omega) (ended_fieldsText fields rest)
      have hmore := readFields_text (fun f hf => ih f (mem_cons_of_mem _ hf)) fuel rest (by omega)
      have hshape : (obj ((key,value) :: fields)).text ++ rest =
          '\x7b' :: '"' :: (stringText key ++ ':' :: value.text ++ (fieldsText fields ++ rest)) := by
        simp only [text, cons_append, append_assoc]
      rw [hshape]
      show ((readField fuel _).bind fun p => (readFields fuel p.2).bind fun q => some (obj (p.1 :: q.1),q.2)) = _
      rw [hfield, Option.bind_some]
      rw [hmore, Option.bind_some]

theorem ofBytes_bytes (h : Plain n value) : ofBytes value.bytes = some value := by
  have hread := reads_plain h value.text.length [] (Nat.le_refl _) rfl
  rw [append_nil] at hread
  unfold ofBytes bytes
  rw [Utf8.decode_encode, Option.bind_some, readText, hread]
  rfl

end RoundTrip

end JsonValue

end Unpeel.Stdio
