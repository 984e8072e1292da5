import Unpeel.Foundation.Utf8Stream

/-! # Any bytes as text

A replacement character stands for each maximal ill-formed part.
-/
namespace Unpeel.Utf8

def replacement : Char := '\uFFFD'

/-- The replacement stands for a character that is cut off at the end as well. -/
def fromUtf8Lossy : List UInt8 → List Char
  | [] => []
  | b :: bytes =>
    match readHead (b :: bytes) with
    | .char n => ((decode ((b :: bytes).take n)).getD []) ++ fromUtf8Lossy (bytes.drop (n - 1))
    | .bad n => replacement :: fromUtf8Lossy (bytes.drop (n - 1))
    | .cut => [replacement]
termination_by bytes => bytes.length
decreasing_by all_goals (rw [List.length_drop, List.length_cons]; omega)

theorem fromUtf8Lossy_char (c : Char) (rest : List UInt8) :
    fromUtf8Lossy (String.utf8EncodeChar c ++ rest) = c :: fromUtf8Lossy rest := by
  have hread := readHead_encodeChar c rest
  have hdecode : decode (String.utf8EncodeChar c) = some [c] := by
    have h := decode_encode [c]
    rwa [encode_cons, encode_nil, List.append_nil] at h
  cases hc : String.utf8EncodeChar c with
  | nil => exact absurd hc String.utf8EncodeChar_ne_nil
  | cons first tail =>
    rw [hc] at hread hdecode
    rw [List.cons_append] at hread ⊢
    rw [fromUtf8Lossy, hread]
    dsimp only
    rw [List.length_cons, Nat.add_sub_cancel, List.drop_left, ← List.cons_append, ← List.length_cons, List.take_left, hdecode]
    rfl

/-- Text is read as it is, whatever comes behind it. -/
theorem fromUtf8Lossy_append (text : List Char) (rest : List UInt8) :
    fromUtf8Lossy (encode text ++ rest) = text ++ fromUtf8Lossy rest := by
  induction text with
  | nil => rfl
  | cons c text ih => rw [encode_cons, List.append_assoc, fromUtf8Lossy_char, ih, List.cons_append]

@[simp] theorem fromUtf8Lossy_encode (text : List Char) : fromUtf8Lossy (encode text) = text := by
  have h := fromUtf8Lossy_append text []
  rwa [List.append_nil, fromUtf8Lossy, List.append_nil] at h

end Unpeel.Utf8
