import Unpeel.Foundation.Utf8Stream

/-! # Text by byte offsets

A place in a text is given in bytes. There is a slice only where the place is between two
characters, and a pattern of ASCII characters is found in the bytes where it is in the text.
-/
namespace Unpeel.TextSlices
open Utf8 List
variable {text : List Char}

/-- `str::len`. -/
def byteLen (text : List Char) : ℕ := (text.map Char.utf8Size).sum

def sliceFrom : List Char → ℕ → Option (List Char)
  | text, 0 => some text
  | [], _ + 1 => none
  | c :: text, n + 1 => if c.utf8Size ≤ n + 1 then sliceFrom text (n + 1 - c.utf8Size) else none

def sliceTo : List Char → ℕ → Option (List Char)
  | _, 0 => some []
  | [], _ + 1 => none
  | c :: text, n + 1 => if c.utf8Size ≤ n + 1 then (sliceTo text (n + 1 - c.utf8Size)).map (c :: ·) else none

def slice (text : List Char) (start stop : ℕ) : Option (List Char) :=
  if start ≤ stop then (sliceFrom text start).bind fun text => sliceTo text (stop - start) else none

@[simp] theorem byteLen_nil : byteLen [] = 0 := rfl

@[simp] theorem byteLen_cons (c : Char) (text : List Char) : byteLen (c :: text) = c.utf8Size + byteLen text := by
  rfl

@[simp] theorem byteLen_append (a b : List Char) : byteLen (a ++ b) = byteLen a + byteLen b := by
  rw [byteLen, map_append, sum_append]
  rfl

@[simp] theorem length_encode (text : List Char) : (encode text).length = byteLen text := by
  induction text with
  | nil => rfl
  | cons c text ih => rw [encode_cons, length_append, String.length_utf8EncodeChar, ih, byteLen_cons]

theorem encode_append (a b : List Char) : encode (a ++ b) = encode a ++ encode b := flatMap_append

theorem sliceFrom_cons (c : Char) (text : List Char) (n : ℕ) : sliceFrom (c :: text) (c.utf8Size + n) = sliceFrom text n := by
  obtain ⟨m,hm⟩ : ∃ m, c.utf8Size + n = m + 1 := ⟨c.utf8Size + n - 1,by have := c.utf8Size_pos; omega⟩
  rw [hm, sliceFrom, if_pos (by omega), ← hm, Nat.add_sub_cancel_left]

theorem sliceTo_cons (c : Char) (text : List Char) (n : ℕ) :
    sliceTo (c :: text) (c.utf8Size + n) = (sliceTo text n).map (c :: ·) := by
  obtain ⟨m,hm⟩ : ∃ m, c.utf8Size + n = m + 1 := ⟨c.utf8Size + n - 1,by have := c.utf8Size_pos; omega⟩
  rw [hm, sliceTo, if_pos (by omega), ← hm, Nat.add_sub_cancel_left]

@[simp] theorem sliceFrom_zero (text : List Char) : sliceFrom text 0 = some text := by cases text <;> rfl

@[simp] theorem sliceTo_zero (text : List Char) : sliceTo text 0 = some [] := by cases text <;> rfl

/-- Between two parts there is a place. -/
theorem sliceFrom_append (front back : List Char) : sliceFrom (front ++ back) (byteLen front) = some back := by
  induction front with
  | nil => exact sliceFrom_zero back
  | cons c front ih => rw [cons_append, byteLen_cons, sliceFrom_cons, ih]

theorem sliceTo_append (front back : List Char) : sliceTo (front ++ back) (byteLen front) = some front := by
  induction front with
  | nil => exact sliceTo_zero back
  | cons c front ih => rw [cons_append, byteLen_cons, sliceTo_cons, ih, Option.map_some]

theorem slice_append (front middle back : List Char) :
    slice (front ++ (middle ++ back)) (byteLen front) (byteLen front + byteLen middle) = some middle := by
  rw [slice, if_pos (Nat.le_add_right _ _), sliceFrom_append, Option.bind_some, Nat.add_sub_cancel_left, sliceTo_append]

/-- There is no slice up to a place behind the end or inside a character. -/
theorem sliceTo_eq_none {n : ℕ} : sliceTo text n = none ↔ byteLen text < n ∨
    ∃ front c back, text = front ++ c :: back ∧ byteLen front < n ∧ n < byteLen front + c.utf8Size := by
  induction text generalizing n with
  | nil =>
    cases n with
    | zero =>
      refine ⟨fun h => (by cases h),?_⟩
      rintro (h | ⟨front,c,back,-,h,-⟩)
      · exact absurd h (Nat.lt_irrefl 0)
      · exact absurd h (Nat.not_lt_zero _)
    | succ n => exact ⟨fun _ => .inl (Nat.succ_pos n),fun _ => rfl⟩
  | cons c text ih =>
    rcases Nat.lt_or_ge n c.utf8Size with hlt | hge
    · cases n with
      | zero =>
        refine ⟨fun h => (by cases h),?_⟩
        rintro (h | ⟨front,d,back,-,h,-⟩)
        · exact absurd h (Nat.not_lt_zero _)
        · exact absurd h (Nat.not_lt_zero _)
      | succ n =>
        rw [sliceTo, if_neg (Nat.not_le_of_lt hlt)]
        exact ⟨fun _ => .inr ⟨[],c,text,rfl,Nat.succ_pos n,by rwa [byteLen_nil, Nat.zero_add]⟩,fun _ => rfl⟩
    · obtain ⟨m,rfl⟩ : ∃ m, n = c.utf8Size + m := ⟨n - c.utf8Size,by omega⟩
      rw [sliceTo_cons, Option.map_eq_none_iff, ih, byteLen_cons, Nat.add_lt_add_iff_left]
      refine or_congr Iff.rfl ⟨?_,?_⟩
      · rintro ⟨front,d,back,rfl,hlow,hhigh⟩
        exact ⟨c :: front,d,back,rfl,by rw [byteLen_cons]; omega,by rw [byteLen_cons]; omega⟩
      · rintro ⟨front,d,back,hsplit,hlow,hhigh⟩
        cases front with
        | nil =>
          obtain ⟨rfl,-⟩ := List.cons.inj hsplit
          rw [byteLen_nil] at hhigh
          omega
        | cons e front =>
          obtain ⟨rfl,rfl⟩ := List.cons.inj hsplit
          rw [byteLen_cons] at hlow hhigh
          exact ⟨front,d,back,rfl,by omega,by omega⟩

/-- Cutting off at a place, or at the end where the text is shorter, fails only inside a character. -/
theorem sliceTo_min_eq_none {n : ℕ} : sliceTo text (min (byteLen text) n) = none ↔
    ∃ front c back, text = front ++ c :: back ∧ byteLen front < n ∧ n < byteLen front + c.utf8Size := by
  rcases Nat.le_total n (byteLen text) with hle | hge
  · rw [Nat.min_eq_right hle, sliceTo_eq_none]
    exact or_iff_right (Nat.not_lt_of_le hle)
  · have hwhole := sliceTo_append text []
    rw [append_nil] at hwhole
    rw [Nat.min_eq_left hge, hwhole]
    refine ⟨fun h => (by cases h),?_⟩
    rintro ⟨front,c,back,rfl,hlow,hhigh⟩
    rw [byteLen_append, byteLen_cons] at hge
    omega

/-! ### ASCII patterns in the bytes -/

/-- The first byte of a character is an ASCII character's only if the character is that one. -/
theorem encodeChar_eq_ascii {c d : Char} (hc : c.toNat < 128) {tail : List UInt8}
    (h : String.utf8EncodeChar d = UInt8.ofNat c.toNat :: tail) : d = c ∧ tail = [] := by
  have hsmall : (UInt8.ofNat c.toNat).toNat = c.toNat := toNat_ofNat_of_lt (by omega)
  have hsize : ¬1 < (String.utf8EncodeChar d).length := by
    intro hlong
    have hlow := low_of_encodeChar hlong (h ▸ mem_cons_self)
    omega
  have htail : tail = [] := by
    rw [h, length_cons] at hsize
    exact eq_nil_of_length_eq_zero (by omega)
  have hone : d.utf8Size = 1 := by
    rw [← String.length_utf8EncodeChar, h, htail]
    rfl
  have hascii : d.toNat < 128 := by
    have hle := Char.utf8Size_eq_one_iff.mp hone
    exact Nat.lt_succ_of_le hle
  rw [encodeChar_ascii hascii] at h
  have hnat := congrArg UInt8.toNat (List.cons.inj h).1
  rw [hsmall, toNat_ofNat_of_lt (by omega)] at hnat
  exact ⟨Char.toNat_inj.mp hnat,htail⟩

theorem encode_prefix_iff {pattern : List Char} (h : ∀ c ∈ pattern, c.toNat < 128) :
    encode pattern <+: encode text ↔ pattern <+: text := by
  constructor
  · intro hbytes
    induction pattern generalizing text with
    | nil => exact ⟨text,rfl⟩
    | cons c pattern ih =>
      rw [encode_cons, encodeChar_ascii (h c mem_cons_self)] at hbytes
      cases text with
      | nil =>
        obtain ⟨more,hmore⟩ := hbytes
        cases hmore
      | cons d text =>
        obtain ⟨more,hmore⟩ := hbytes
        cases hd : String.utf8EncodeChar d with
        | nil => exact absurd hd String.utf8EncodeChar_ne_nil
        | cons first tail =>
          rw [encode_cons, hd] at hmore
          obtain ⟨rfl,hrest⟩ := List.cons.inj hmore
          obtain ⟨rfl,rfl⟩ := encodeChar_eq_ascii (h c mem_cons_self) hd
          exact (cons_prefix_cons).mpr ⟨rfl,ih (fun e he => h e (mem_cons_of_mem _ he)) ⟨more,hrest⟩⟩
  · rintro ⟨more,rfl⟩
    rw [encode_append]
    exact prefix_append _ _

/-- An ASCII byte is found only at the beginning of a character. -/
theorem ascii_not_mem_tail {c : Char} {first : UInt8} {tail : List UInt8} (h : String.utf8EncodeChar c = first :: tail) {b : UInt8}
    (hb : b ∈ tail) : 0x80 ≤ b.toNat := by
  have hlong : 1 < (String.utf8EncodeChar c).length := by
    rw [h, length_cons]
    exact Nat.succ_lt_succ (length_pos_of_mem hb)
  exact low_of_encodeChar hlong (h ▸ mem_cons_of_mem _ hb)

end Unpeel.TextSlices
