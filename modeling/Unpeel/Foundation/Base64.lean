import Mathlib.Data.UInt

/-! # The padded standard base64 of byte strings

Three bytes are four characters of six bits each; one or two bytes at the end are
padded with `=`.
-/
namespace Unpeel.Base64

def alphabet : List Char := "ABCDEFGHIJKLMNOPQRSTUVWXYZabcdefghijklmnopqrstuvwxyz0123456789+/".toList

def digit (n : ℕ) : Char := alphabet.getD n '='

def value (c : Char) : Option ℕ := alphabet.findIdx? (· = c)

def byte (n : ℕ) : UInt8 := UInt8.ofNat n

def encode : List UInt8 → List Char
  | [] => []
  | [a] => [digit (a.toNat / 4),digit (a.toNat % 4 * 16),'=','=']
  | [a,b] => [digit (a.toNat / 4),digit (a.toNat % 4 * 16 + b.toNat / 16),digit (b.toNat % 16 * 4),'=']
  | a :: b :: c :: rest => digit (a.toNat / 4) :: digit (a.toNat % 4 * 16 + b.toNat / 16) ::
      digit (b.toNat % 16 * 4 + c.toNat / 64) :: digit (c.toNat % 64) :: encode rest

/-- The last character of a group, if it is the padding, ends the text, and the bits it
leaves over have to be zero. -/
def decode : List Char → Option (List UInt8)
  | [] => some []
  | p :: q :: r :: s :: rest => do
    let x ← value p
    let y ← value q
    if r = '=' ∧ s = '=' then
      if rest = [] ∧ y % 16 = 0 then some [byte (x * 4 + y / 16)] else none
    else
      let z ← value r
      if s = '=' then
        if rest = [] ∧ z % 4 = 0 then some [byte (x * 4 + y / 16),byte (y % 16 * 16 + z / 4)]
        else none
      else
        let w ← value s
        let bytes ← decode rest
        some (byte (x * 4 + y / 16) :: byte (y % 16 * 16 + z / 4) :: byte (z % 4 * 64 + w) ::
          bytes)
  | _ => none

theorem value_digit {n : ℕ} (h : n < 64) : value (digit n) = some n := by
  revert n
  decide +kernel

theorem digit_ne_pad {n : ℕ} (h : n < 64) : digit n ≠ '=' := by
  revert n
  decide +kernel

theorem byte_eq {n : ℕ} {a : UInt8} (h : n = a.toNat) : byte n = a := by
  rw [h, byte, UInt8.ofNat_toNat]

@[simp] theorem decode_encode (bytes : List UInt8) : decode (encode bytes) = some bytes := by
  induction bytes using encode.induct with
  | case1 => rfl
  | case2 a =>
    have ha := a.toNat_lt
    have hbits : a.toNat % 4 * 16 % 16 = 0 := by omega
    have hbyte : byte (a.toNat / 4 * 4 + a.toNat % 4 * 16 / 16) = a := byte_eq (by omega)
    rw [encode, decode, value_digit (by omega), value_digit (by omega)]
    simp only [Option.bind_eq_bind, Option.bind_some, and_self, if_true, hbits, hbyte]
  | case3 a b =>
    have ha := a.toNat_lt
    have hb := b.toNat_lt
    have hbits : b.toNat % 16 * 4 % 4 = 0 := by omega
    have hfirst : byte (a.toNat / 4 * 4 + (a.toNat % 4 * 16 + b.toNat / 16) / 16) = a := byte_eq (by omega)
    have hsecond : byte ((a.toNat % 4 * 16 + b.toNat / 16) % 16 * 16 + b.toNat % 16 * 4 / 4) = b :=
      byte_eq (by omega)
    have hpad : digit (b.toNat % 16 * 4) ≠ '=' := digit_ne_pad (by omega)
    rw [encode, decode, value_digit (by omega), value_digit (by omega), value_digit (by omega)]
    simp only [Option.bind_eq_bind, Option.bind_some, and_self, false_and, if_true, if_false, hbits, hfirst, hsecond, hpad]
  | case4 a b c rest ih =>
    have ha := a.toNat_lt
    have hb := b.toNat_lt
    have hc := c.toNat_lt
    have hfirst : byte (a.toNat / 4 * 4 + (a.toNat % 4 * 16 + b.toNat / 16) / 16) = a := byte_eq (by omega)
    have hsecond : byte ((a.toNat % 4 * 16 + b.toNat / 16) % 16 * 16 +
        (b.toNat % 16 * 4 + c.toNat / 64) / 4) = b := byte_eq (by omega)
    have hthird : byte ((b.toNat % 16 * 4 + c.toNat / 64) % 4 * 64 + c.toNat % 64) = c := byte_eq (by omega)
    have hpad : digit (c.toNat % 64) ≠ '=' := digit_ne_pad (by omega)
    rw [encode, decode, value_digit (by omega), value_digit (by omega), value_digit (by omega),
      value_digit (by omega), ih]
    simp only [Option.bind_eq_bind, Option.bind_some, and_false, if_false, hfirst, hsecond, hthird, hpad]

theorem digit_mem (n : ℕ) : digit n ∈ '=' :: alphabet := by
  unfold digit
  rw [List.getD_eq_getElem?_getD]
  cases h : alphabet[n]? with
  | none => exact List.mem_cons_self
  | some c => exact List.mem_cons_of_mem _ (List.mem_of_getElem? h)

theorem mem_encode {bytes : List UInt8} {c : Char} (h : c ∈ encode bytes) : c ∈ '=' :: alphabet := by
  have hpad : '=' ∈ '=' :: alphabet := List.mem_cons_self
  induction bytes using encode.induct with
  | case1 => exact absurd h List.not_mem_nil
  | case2 a =>
    simp only [encode, List.mem_cons, List.not_mem_nil, or_false] at h
    rcases h with rfl | rfl | rfl | rfl
    · exact digit_mem _
    · exact digit_mem _
    · exact hpad
    · exact hpad
  | case3 a b =>
    simp only [encode, List.mem_cons, List.not_mem_nil, or_false] at h
    rcases h with rfl | rfl | rfl | rfl
    · exact digit_mem _
    · exact digit_mem _
    · exact digit_mem _
    · exact hpad
  | case4 a b c' rest ih =>
    rw [encode, List.mem_cons, List.mem_cons, List.mem_cons, List.mem_cons] at h
    rcases h with rfl | rfl | rfl | rfl | h
    · exact digit_mem _
    · exact digit_mem _
    · exact digit_mem _
    · exact digit_mem _
    · exact ih h

end Unpeel.Base64
