import Mathlib.Data.Nat.ModEq
import Mathlib.Tactic.Ring

/-! # Fixed-width big-endian integers

The wire form of the fixed-width integers of a length-prefixed protocol. Writing
truncates to the width, as `to_be_bytes` of a narrowing cast does, so reading
back gives the value modulo the width.
-/
namespace Unpeel.BigEndian

/-- The `width` low bytes of a number, most significant first. -/
def beBytes : ℕ → ℕ → List UInt8
  | 0, _ => []
  | w + 1, n => UInt8.ofNat (n / 256 ^ w) :: beBytes w n

def readBe (bytes : List UInt8) : ℕ :=
  bytes.foldl (fun n b => n * 256 + b.toNat) 0

@[simp] theorem beBytes_length (w n : ℕ) : (beBytes w n).length = w := by
  induction w with
  | zero => rfl
  | succ w ih => simp [beBytes, ih]

theorem foldl_readBe (bytes : List UInt8) (n : ℕ) :
    bytes.foldl (fun n b => n * 256 + b.toNat) n = n * 256 ^ bytes.length + readBe bytes := by
  induction bytes generalizing n with
  | nil => simp [readBe]
  | cons b bytes ih =>
    simp only [List.foldl_cons, List.length_cons, readBe]
    rw [ih, ih (0 * 256 + b.toNat)]
    ring

@[simp] theorem readBe_beBytes (w n : ℕ) : readBe (beBytes w n) = n % 256 ^ w := by
  induction w with
  | zero => simp [beBytes, readBe, Nat.mod_one]
  | succ w ih =>
    have hs : readBe (beBytes (w + 1) n) =
        (UInt8.ofNat (n / 256 ^ w)).toNat * 256 ^ w + readBe (beBytes w n) := by
      simpa [beBytes, readBe] using foldl_readBe (beBytes w n) (UInt8.ofNat (n / 256 ^ w)).toNat
    rw [hs, ih, Nat.pow_succ, Nat.mod_mul, UInt8.toNat_ofNat']
    change n / 256 ^ w % 256 * 256 ^ w + n % 256 ^ w = _
    ring

theorem readBe_beBytes_of_lt {w n : ℕ} (h : n < 256 ^ w) : readBe (beBytes w n) = n := by
  rw [readBe_beBytes, Nat.mod_eq_of_lt h]

theorem readBe_lt (bytes : List UInt8) : readBe bytes < 256 ^ bytes.length := by
  induction bytes with
  | nil => decide
  | cons b bytes ih =>
    have hs : readBe (b :: bytes) = b.toNat * 256 ^ bytes.length + readBe bytes := by
      simpa [readBe] using foldl_readBe bytes b.toNat
    have hb : b.toNat * 256 ^ bytes.length ≤ 255 * 256 ^ bytes.length :=
      Nat.mul_le_mul_right _ (Nat.le_of_lt_succ b.toNat_lt)
    rw [hs, List.length_cons, Nat.pow_succ]
    omega

theorem beBytes_inj {w m n : ℕ} (hm : m < 256 ^ w) (hn : n < 256 ^ w) (h : beBytes w m = beBytes w n) :
    m = n := by
  rw [← readBe_beBytes_of_lt hm, ← readBe_beBytes_of_lt hn, h]

end Unpeel.BigEndian
