import Mathlib.Algebra.Group.Nat.Defs

/-!
# Numbers in little-endian order

A number as a fixed count of bytes, least significant first, and the number that bytes stand for.
-/

namespace LittleEndian

/-- The lowest bytes of a number. -/
def encode : ℕ → ℕ → List UInt8
  | 0, _ => []
  | n + 1, x => UInt8.ofNat x :: encode n (x / 256)

/-- The number that bytes stand for. -/
def decode : List UInt8 → ℕ
  | [] => 0
  | b :: bs => b.toNat + 256 * decode bs

/-- The count of the bytes. -/
@[simp] theorem length_encode (n x : ℕ) : (encode n x).length = n := by
  induction n generalizing x with
  | zero => rfl
  | succ n ih => rw [encode, List.length_cons, ih]

/-- A number that fits is read back. -/
theorem decode_encode {n x : ℕ} (h : x < 256 ^ n) : decode (encode n x) = x := by
  induction n generalizing x with
  | zero =>
    rw [pow_zero] at h
    rw [encode, decode]
    omega
  | succ n ih =>
    have hdiv : x / 256 < 256 ^ n := by
      rw [pow_succ] at h
      exact Nat.div_lt_of_lt_mul (by rwa [Nat.mul_comm])
    rw [encode, decode, ih hdiv, UInt8.toNat_ofNat']
    exact Nat.mod_add_div x 256

/-- The number that bytes stand for fits in their count. -/
theorem decode_lt (bs : List UInt8) : decode bs < 256 ^ bs.length := by
  induction bs with
  | nil => exact Nat.one_pos
  | cons b bs ih =>
    have hb := b.toNat_lt
    rw [decode, List.length_cons, pow_succ]
    omega

/-- Bytes that are read as a number are written back. -/
theorem encode_decode (bs : List UInt8) : encode bs.length (decode bs) = bs := by
  induction bs with
  | nil => rfl
  | cons b bs ih =>
    have hb := b.toNat_lt
    have hmod : (b.toNat + 256 * decode bs) % 256 = b.toNat := by omega
    have hdiv : (b.toNat + 256 * decode bs) / 256 = decode bs := by omega
    have hbyte : UInt8.ofNat (b.toNat + 256 * decode bs) = b := by
      apply UInt8.toNat_inj.mp
      rw [UInt8.toNat_ofNat', hmod]
    rw [decode, List.length_cons, encode, hbyte, hdiv, ih]

end LittleEndian
