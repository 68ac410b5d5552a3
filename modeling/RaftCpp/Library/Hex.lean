import Mathlib.Algebra.Group.Nat.Defs
import Mathlib.Data.List.TakeWhile
import Mathlib.Tactic.SplitIfs

/-!
# Hexadecimal digits

A number of a fixed count of digits is read back from them, and the order of such texts is that of the numbers.
-/

namespace Hex

/-- The bytes of the digits, in either case. -/
def isDigit (b : UInt8) : Bool := (48 ≤ b && b ≤ 57) || (65 ≤ b && b ≤ 70) || (97 ≤ b && b ≤ 102)

/-- The value of a digit. -/
def digitValue (b : UInt8) : ℕ :=
  if b ≤ 57 then b.toNat - 48 else if b ≤ 70 then b.toNat - 55 else b.toNat - 87

/-- The digit of a value. -/
def digit (d : ℕ) : UInt8 := UInt8.ofNat (if d < 10 then 48 + d else 87 + d)

/-- The number that digits stand for. -/
def value (ds : List UInt8) : ℕ := ds.foldl (fun n d => 16 * n + digitValue d) 0

/-- The last digits of a number, with zeros in front of a smaller one. -/
def padded : ℕ → ℕ → List UInt8
  | 0, _ => []
  | w + 1, n => padded w (n / 16) ++ [digit (n % 16)]

/-- What the digits are. -/
theorem digit_spec : ∀ d < 16, isDigit (digit d) = true ∧ digitValue (digit d) = d := by
  decide

/-- A greater value has a greater digit. -/
theorem digit_lt_iff : ∀ d < 16, ∀ e < 16, digit d < digit e ↔ d < e := by
  decide

/-- There are as many digits as that. -/
@[simp] theorem length_padded (w n : ℕ) : (padded w n).length = w := by
  induction w generalizing n with
  | zero => rfl
  | succ w ih => rw [padded, List.length_append, ih, List.length_singleton]

/-- All of them are digits. -/
theorem isDigit_of_mem_padded {w n : ℕ} {d : UInt8} (h : d ∈ padded w n) : isDigit d = true := by
  induction w generalizing n with
  | zero => exact absurd h List.not_mem_nil
  | succ w ih =>
    rw [padded, List.mem_append, List.mem_singleton] at h
    obtain h | rfl := h
    · exact ih h
    · exact (digit_spec _ (Nat.mod_lt n (by decide))).1

/-- They stand for the number, if it has no more digits. -/
theorem value_padded {w n : ℕ} (h : n < 16 ^ w) : value (padded w n) = n := by
  induction w generalizing n with
  | zero =>
    rw [Nat.pow_zero] at h
    show 0 = n
    omega
  | succ w ih =>
    have hdiv : n / 16 < 16 ^ w := by
      rw [Nat.pow_succ] at h
      omega
    have hvalue : value (padded (w + 1) n) = 16 * value (padded w (n / 16)) + digitValue (digit (n % 16)) := by
      unfold value
      rw [padded, List.foldl_append]
      rfl
    rw [hvalue, ih hdiv, (digit_spec _ (Nat.mod_lt n (by decide))).2]
    omega

/-! ## The order of texts -/

/-- Texts of the same length in front decide the order first. -/
theorem append_lt_append_iff {xs ys us vs : List UInt8} (h : xs.length = ys.length) :
    xs ++ us < ys ++ vs ↔ xs < ys ∨ (xs = ys ∧ us < vs) := by
  induction xs generalizing ys with
  | nil =>
    obtain rfl := List.length_eq_zero_iff.mp h.symm
    simp
  | cons x xs ih =>
    cases ys with
    | nil => cases h
    | cons y ys =>
      rw [List.cons_append, List.cons_append, List.cons_lt_cons_iff, List.cons_lt_cons_iff,
        ih (Nat.succ.inj h), List.cons.injEq, and_or_left, or_assoc, and_assoc]

/-- Only the numbers that are the same have the same digits. -/
theorem padded_inj {w n m : ℕ} (hn : n < 16 ^ w) (hm : m < 16 ^ w) : padded w n = padded w m ↔ n = m := by
  constructor
  · intro h
    rw [← value_padded hn, h, value_padded hm]
  · rintro rfl
    rfl

/-- The order of the digits is that of the numbers. -/
theorem padded_lt_iff {w n m : ℕ} (hn : n < 16 ^ w) (hm : m < 16 ^ w) : padded w n < padded w m ↔ n < m := by
  induction w generalizing n m with
  | zero =>
    rw [Nat.pow_zero] at hn hm
    constructor
    · intro h
      exact absurd h (List.not_lt_nil _)
    · omega
  | succ w ih =>
    rw [Nat.pow_succ] at hn hm
    have hn' : n / 16 < 16 ^ w := by omega
    have hm' : m / 16 < 16 ^ w := by omega
    have hdigit : [digit (n % 16)] < [digit (m % 16)] ↔ n % 16 < m % 16 := by
      rw [List.cons_lt_cons_iff, ← digit_lt_iff _ (Nat.mod_lt n (by decide)) _ (Nat.mod_lt m (by decide))]
      simp
    rw [padded, padded, append_lt_append_iff (by simp), ih hn' hm', padded_inj hn' hm', hdigit]
    omega

/-- The order of two numbers, one behind the other, is that of the pairs. -/
theorem pair_lt_iff {w n m n' m' : ℕ} (hn : n < 16 ^ w) (hm : m < 16 ^ w) (hn' : n' < 16 ^ w)
    (hm' : m' < 16 ^ w) (b : UInt8) (bs : List UInt8) :
    padded w n ++ b :: (padded w m ++ bs) < padded w n' ++ b :: (padded w m' ++ bs) ↔
      n < n' ∨ (n = n' ∧ m < m') := by
  have hlength : ∀ n m : ℕ, (padded w n).length = (padded w m).length := by
    intro n m
    rw [length_padded, length_padded]
  rw [append_lt_append_iff (hlength _ _), padded_lt_iff hn hn', padded_inj hn hn', List.cons_lt_cons_iff,
    append_lt_append_iff (hlength _ _), padded_lt_iff hm hm']
  simp [List.lt_irrefl]

end Hex
