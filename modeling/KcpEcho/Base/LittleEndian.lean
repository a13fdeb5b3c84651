import Mathlib.Algebra.Order.Ring.Nat
import Mathlib.Tactic.Ring

/-!
# Little-endian bytes of a natural number

`encode w n` is the `w` low bytes of `n`, least significant first; `decode` reads a byte string
back. Fixed-width fields of a wire format are both of these at one width, and the single round
trip `decode_encode` serves every field.
-/

namespace LittleEndian

/-- The `w` low bytes of `n`, least significant first. -/
def encode : ℕ → ℕ → List UInt8
  | 0, _ => []
  | w + 1, n => UInt8.ofNat n :: encode w (n / 256)

/-- The number a byte string denotes, least significant byte first. -/
def decode : List UInt8 → ℕ
  | [] => 0
  | b :: bs => b.toNat + 256 * decode bs

@[simp] theorem length_encode (w n : ℕ) : (encode w n).length = w := by
  induction w generalizing n with
  | zero => rfl
  | succ w ih => rw [encode, List.length_cons, ih]

/-- **Round trip.** Reading back the `w` low bytes gives the number modulo `256 ^ w`. -/
theorem decode_encode (w n : ℕ) : decode (encode w n) = n % 256 ^ w := by
  induction w generalizing n with
  | zero => rw [encode, decode, pow_zero, Nat.mod_one]
  | succ w ih =>
    rw [encode, decode, ih, pow_succ', Nat.mod_mul, UInt8.toNat_ofNat']

theorem decode_encode_of_lt {w n : ℕ} (h : n < 256 ^ w) : decode (encode w n) = n := by
  rw [decode_encode, Nat.mod_eq_of_lt h]

theorem decode_lt (bs : List UInt8) : decode bs < 256 ^ bs.length := by
  induction bs with
  | nil => exact Nat.one_pos
  | cons b bs ih =>
    have hb := b.toNat_lt
    rw [decode, List.length_cons, pow_succ']
    omega

/-- The other round trip: a byte string is the encoding of the number it denotes. -/
theorem encode_decode (bs : List UInt8) : encode bs.length (decode bs) = bs := by
  induction bs with
  | nil => rfl
  | cons b bs ih =>
    have hb := b.toNat_lt
    rw [decode, List.length_cons, encode,
      show (b.toNat + 256 * decode bs) / 256 = decode bs by omega, ih, UInt8.ofNat_add,
      UInt8.ofNat_mul, UInt8.ofNat_toNat]
    simp

end LittleEndian
