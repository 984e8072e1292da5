import Mathlib.Data.UInt

/-! # Text as UTF-8 -/
namespace Unpeel.Utf8
variable {range : ℕ × ℕ} {first b : UInt8}
variable {n : ℕ} {ranges : List (ℕ × ℕ)}

def encode (text : List Char) : List UInt8 := text.flatMap String.utf8EncodeChar

def decode (bytes : List UInt8) : Option (List Char) := bytes.toByteArray.utf8Decode?.map Array.toList

@[simp] theorem encode_nil : encode [] = [] := rfl

@[simp] theorem encode_cons (c : Char) (text : List Char) : encode (c :: text) = String.utf8EncodeChar c ++ encode text := rfl

theorem decode_encode (text : List Char) : decode (encode text) = some text := by
  have h : (encode text).toByteArray.utf8Decode? = some text.toArray := List.utf8Decode?_utf8Encode
  rw [decode, h]
  rfl

theorem encodeChar_ascii {c : Char} (h : c.toNat < 128) : String.utf8EncodeChar c = [UInt8.ofNat c.toNat] := by
  have hsize : c.utf8Size = 1 := Char.utf8Size_eq_one_iff.mpr (by
    exact Nat.le_of_lt_succ h)
  rw [String.utf8EncodeChar_eq_singleton hsize]
  rfl

theorem encode_ascii {text : List Char} (h : ∀ c ∈ text, c.toNat < 128) : encode text = text.map fun c => UInt8.ofNat c.toNat := by
  induction text with
  | nil => rfl
  | cons c text ih =>
    rw [encode_cons, encodeChar_ascii (h c List.mem_cons_self), ih fun d hd => h d (List.mem_cons_of_mem c hd)]
    rfl


def continuation : ℕ × ℕ := (0x80,0xbf)

def tailRanges (first : UInt8) : Option (List (ℕ × ℕ)) :=
  let n := first.toNat
  if n < 0x80 then some []
  else if n < 0xc2 then none
  else if n < 0xe0 then some [continuation]
  else if n = 0xe0 then some [(0xa0,0xbf),continuation]
  else if n = 0xed then some [(0x80,0x9f),continuation]
  else if n < 0xf0 then some [continuation,continuation]
  else if n = 0xf0 then some [(0x90,0xbf),continuation,continuation]
  else if n < 0xf4 then some [continuation,continuation,continuation]
  else if n = 0xf4 then some [(0x80,0x8f),continuation,continuation]
  else none

def Within (range : ℕ × ℕ) (b : UInt8) : Prop := range.1 ≤ b.toNat ∧ b.toNat ≤ range.2

instance (range : ℕ × ℕ) (b : UInt8) : Decidable (Within range b) := inferInstanceAs (Decidable (_ ∧ _))

theorem toNat_ofNat_of_lt (h : n < 256) : (UInt8.ofNat n).toNat = n := by
  rw [UInt8.toNat_ofNat', Nat.mod_eq_of_lt h]

theorem scalar_bounds (c : Char) : c.toNat < 0xd800 ∨ 0xdfff < c.toNat ∧ c.toNat < 0x110000 := c.valid

theorem within_continuation (n : ℕ) : Within continuation (UInt8.ofNat (n % 64 + 128)) := by
  have h := toNat_ofNat_of_lt (show n % 64 + 128 < 256 by omega)
  unfold Within continuation
  omega

theorem within_ofNat (hlow : range.1 ≤ n) (hhigh : n ≤ range.2) (h : range.2 < 256) : Within range (UInt8.ofNat n) := by
  have hn := toNat_ofNat_of_lt (show n < 256 by omega)
  unfold Within
  omega

/-- The ranges behind a first byte of three. -/
theorem tailRanges_three (h : n < 16) : tailRanges (UInt8.ofNat (n + 0xe0)) =
    some [if n = 0 then (0xa0,0xbf) else if n = 13 then (0x80,0x9f) else continuation,continuation] := by
  revert n
  decide

/-- The ranges behind a first byte of four. -/
theorem tailRanges_four (h : n < 5) : tailRanges (UInt8.ofNat (n + 0xf0)) =
    some [if n = 0 then (0x90,0xbf) else if n = 4 then (0x80,0x8f) else continuation,continuation,continuation] := by
  revert n
  decide

theorem tailRanges_encodeChar {c : Char} {tail : List UInt8} (h : String.utf8EncodeChar c = first :: tail) :
    ∃ ranges, tailRanges first = some ranges ∧ List.Forall₂ Within ranges tail := by
  have hc := scalar_bounds c
  have hval : c.val.toNat = c.toNat := rfl
  unfold String.utf8EncodeChar at h
  rw [hval] at h
  dsimp only at h
  split_ifs at h with h1 h2 h3
  · obtain ⟨rfl,rfl⟩ := List.cons.inj h
    have hfirst := toNat_ofNat_of_lt (show c.toNat < 256 by omega)
    refine ⟨[],?_,.nil⟩
    unfold tailRanges
    rw [hfirst, if_pos (by omega)]
  · obtain ⟨rfl,rfl⟩ := List.cons.inj h
    have hfirst := toNat_ofNat_of_lt (show c.toNat / 64 % 32 + 192 < 256 by omega)
    refine ⟨[continuation],?_,.cons (within_continuation _) .nil⟩
    unfold tailRanges
    rw [hfirst, if_neg (by omega), if_neg (by omega), if_pos (by omega)]
  · obtain ⟨rfl,rfl⟩ := List.cons.inj h
    refine ⟨_,tailRanges_three (Nat.mod_lt _ (by decide)),.cons ?_ (.cons (within_continuation _) .nil)⟩
    split_ifs
    · exact within_ofNat (by dsimp only; omega) (by dsimp only; omega) (by decide)
    · exact within_ofNat (by dsimp only; omega) (by dsimp only; omega) (by decide)
    · exact within_continuation _
  · obtain ⟨rfl,rfl⟩ := List.cons.inj h
    refine ⟨_,tailRanges_four (by omega),.cons ?_ (.cons (within_continuation _) (.cons (within_continuation _) .nil))⟩
    split_ifs
    · exact within_ofNat (by dsimp only; omega) (by dsimp only; omega) (by decide)
    · exact within_ofNat (by dsimp only; omega) (by dsimp only; omega) (by decide)
    · exact within_continuation _

structure Continues (range : ℕ × ℕ) : Prop where
  low : 0x80 ≤ range.1
  nonempty : range.1 ≤ range.2
  high : range.2 ≤ 0xbf

theorem Continues.exists_within (h : Continues range) : ∃ b, Within range b :=
  ⟨UInt8.ofNat range.1,within_ofNat (Nat.le_refl _) h.nonempty (Nat.lt_of_le_of_lt h.high (by decide))⟩

/-- At most three bytes are behind a first one. -/
theorem tailRanges_spec (h : tailRanges first = some ranges) :
    ranges.length ≤ 3 ∧ ∀ range ∈ ranges, Continues range := by
  have hcontinuation : Continues continuation := ⟨by decide,by decide,by decide⟩
  unfold tailRanges at h
  dsimp only at h
  split_ifs at h <;> obtain rfl := Option.some.inj h <;> refine ⟨by decide,?_⟩ <;>
    simp only [List.mem_cons, List.not_mem_nil, or_false, forall_eq_or_imp, forall_eq, hcontinuation, and_true, and_self,
      IsEmpty.forall_iff, implies_true]
  · exact ⟨by decide,by decide,by decide⟩
  · exact ⟨by decide,by decide,by decide⟩
  · exact ⟨by decide,by decide,by decide⟩
  · exact ⟨by decide,by decide,by decide⟩

/-- The character of a number. -/
theorem exists_char {n : ℕ} (h : n < 0xd800 ∨ 0xdfff < n ∧ n < 0x110000) : ∃ c : Char, c.toNat = n :=
  ⟨Char.ofNatAux n h,rfl⟩

theorem ofNat_eq_of_toNat {n : ℕ} {b : UInt8} (h : n = b.toNat) : UInt8.ofNat n = b := by
  rw [h, UInt8.ofNat_toNat]

theorem exists_encodeChar_two (hfirst : 0xc2 ≤ first.toNat ∧ first.toNat < 0xe0) (hb : Within continuation b) :
    ∃ c, String.utf8EncodeChar c = [first,b] := by
  unfold Within continuation at hb
  obtain ⟨c,hc⟩ := exists_char (n := (first.toNat - 0xc0) * 64 + (b.toNat - 0x80)) (by omega)
  have hval : c.val.toNat = c.toNat := rfl
  refine ⟨c,?_⟩
  unfold String.utf8EncodeChar
  rw [hval, if_neg (by omega), if_pos (by omega), ofNat_eq_of_toNat (b := first) (by omega), ofNat_eq_of_toNat (b := b) (by omega)]

theorem exists_encodeChar_three {a : UInt8} (hfirst : 0xe0 ≤ first.toNat ∧ first.toNat < 0xf0) (ha : Within continuation a)
    (hb : Within continuation b) (hlong : first.toNat = 0xe0 → 0xa0 ≤ a.toNat) (hscalar : first.toNat = 0xed → a.toNat ≤ 0x9f) :
    ∃ c, String.utf8EncodeChar c = [first,a,b] := by
  unfold Within continuation at ha hb
  obtain ⟨c,hc⟩ := exists_char (n := (first.toNat - 0xe0) * 4096 + (a.toNat - 0x80) * 64 + (b.toNat - 0x80)) (by omega)
  have hval : c.val.toNat = c.toNat := rfl
  refine ⟨c,?_⟩
  unfold String.utf8EncodeChar
  rw [hval, if_neg (by omega), if_neg (by omega), if_pos (by omega), ofNat_eq_of_toNat (b := first) (by omega),
    ofNat_eq_of_toNat (b := a) (by omega), ofNat_eq_of_toNat (b := b) (by omega)]

theorem exists_encodeChar_four {a d : UInt8} (hfirst : 0xf0 ≤ first.toNat ∧ first.toNat ≤ 0xf4) (ha : Within continuation a)
    (hb : Within continuation b) (hd : Within continuation d) (hlong : first.toNat = 0xf0 → 0x90 ≤ a.toNat)
    (hscalar : first.toNat = 0xf4 → a.toNat ≤ 0x8f) : ∃ c, String.utf8EncodeChar c = [first,a,b,d] := by
  unfold Within continuation at ha hb hd
  obtain ⟨c,hc⟩ := exists_char
    (n := (first.toNat - 0xf0) * 262144 + (a.toNat - 0x80) * 4096 + (b.toNat - 0x80) * 64 + (d.toNat - 0x80)) (by omega)
  have hval : c.val.toNat = c.toNat := rfl
  refine ⟨c,?_⟩
  unfold String.utf8EncodeChar
  rw [hval, if_neg (by omega), if_neg (by omega), if_neg (by omega), ofNat_eq_of_toNat (b := first) (by omega),
    ofNat_eq_of_toNat (b := a) (by omega), ofNat_eq_of_toNat (b := b) (by omega), ofNat_eq_of_toNat (b := d) (by omega)]

theorem Within.continuation (h : Within range b) (hlow : 0x80 ≤ range.1) (hhigh : range.2 ≤ 0xbf) :
    Within continuation b := ⟨hlow.trans h.1,h.2.trans hhigh⟩

theorem exists_encodeChar {tail : List UInt8} (hfirst : tailRanges first = some ranges)
    (htail : List.Forall₂ Within ranges tail) : ∃ c, String.utf8EncodeChar c = first :: tail := by
  unfold tailRanges at hfirst
  dsimp only at hfirst
  split_ifs at hfirst <;> obtain rfl := Option.some.inj hfirst
  · cases htail
    obtain ⟨c,hc⟩ := exists_char (n := first.toNat) (by omega)
    refine ⟨c,?_⟩
    rw [encodeChar_ascii (by omega), hc, UInt8.ofNat_toNat]
  · obtain _ | ⟨hb,_ | _⟩ := htail
    exact exists_encodeChar_two (by omega) hb
  · obtain _ | ⟨ha,_ | ⟨hb,_ | _⟩⟩ := htail
    exact exists_encodeChar_three (by omega) (ha.continuation (by decide) (by decide)) hb (fun _ => ha.1) (fun _ => by omega)
  · obtain _ | ⟨ha,_ | ⟨hb,_ | _⟩⟩ := htail
    exact exists_encodeChar_three (by omega) (ha.continuation (by decide) (by decide)) hb (fun _ => by omega) (fun _ => ha.2)
  · obtain _ | ⟨ha,_ | ⟨hb,_ | _⟩⟩ := htail
    exact exists_encodeChar_three (by omega) ha hb (fun _ => by omega) (fun _ => by omega)
  · obtain _ | ⟨ha,_ | ⟨hb,_ | ⟨hd,_ | _⟩⟩⟩ := htail
    exact exists_encodeChar_four (by omega) (ha.continuation (by decide) (by decide)) hb hd (fun _ => ha.1) (fun _ => by omega)
  · obtain _ | ⟨ha,_ | ⟨hb,_ | ⟨hd,_ | _⟩⟩⟩ := htail
    exact exists_encodeChar_four (by omega) ha hb hd (fun _ => by omega) (fun _ => by omega)
  · obtain _ | ⟨ha,_ | ⟨hb,_ | ⟨hd,_ | _⟩⟩⟩ := htail
    exact exists_encodeChar_four (by omega) (ha.continuation (by decide) (by decide)) hb hd (fun _ => by omega) (fun _ => ha.2)

end Unpeel.Utf8
