import Mathlib.Data.List.TakeWhile
import Mathlib.Tactic.IntervalCases
import RaftCpp.Library.Msgpack

/-!
# Bulk strings and arrays of RESP

In the protocol of Redis a line with a number in decimal digits says how long a string is or how many values an
array has. A string may have any bytes, and another end of a line follows it.
-/

namespace Resp

open Msgpack

/-- The end of a line, `"\r\n"`. -/
def crlf : List UInt8 := [13, 10]

/-- The bytes of the digits, `'0'` to `'9'`. -/
def isDigit (b : UInt8) : Bool := 48 ≤ b && b ≤ 57

/-- The number that decimal digits stand for. -/
def number (ds : List UInt8) : ℕ := ds.foldl (fun n d => 10 * n + (d.toNat - 48)) 0

/-- The decimal digits of a number, as `%lu` prints them. -/
def decimal (n : ℕ) : List UInt8 := (Nat.toDigits 10 n).map fun c => UInt8.ofNat c.toNat

/-- A character for a digit is a byte. -/
theorem toNat_digit {c : Char} (h : c.isDigit = true) : (UInt8.ofNat c.toNat).toNat = c.toNat := by
  have hrange : 48 ≤ c.toNat ∧ c.toNat ≤ 57 := by
    simpa [Char.isDigit, UInt32.le_iff_toNat_le] using h
  rw [UInt8.toNat_ofNat']
  omega

/-- There is a digit. -/
theorem decimal_ne_nil (n : ℕ) : decimal n ≠ [] := by
  unfold decimal
  rw [ne_eq, List.map_eq_nil_iff]
  exact Nat.toDigits_ne_nil

/-- All of them are digits. -/
theorem isDigit_of_mem_decimal {n : ℕ} {d : UInt8} (h : d ∈ decimal n) : isDigit d = true := by
  obtain ⟨c, hc, rfl⟩ := List.mem_map.mp h
  have hdigit := Nat.isDigit_of_mem_toDigits (by decide) (by decide) hc
  have hrange : 48 ≤ c.toNat ∧ c.toNat ≤ 57 := by
    simpa [Char.isDigit, UInt32.le_iff_toNat_le] using hdigit
  unfold isDigit
  rw [Bool.and_eq_true, decide_eq_true_iff, decide_eq_true_iff, UInt8.le_iff_toNat_le, UInt8.le_iff_toNat_le,
    toNat_digit hdigit]
  exact hrange

/-- They stand for the number. -/
@[simp] theorem number_decimal (n : ℕ) : number (decimal n) = n := by
  have hfold : ∀ (cs : List Char) (m : ℕ), (∀ c ∈ cs, c.isDigit = true) →
      (cs.map fun c => UInt8.ofNat c.toNat).foldl (fun n d => 10 * n + (d.toNat - 48)) m =
        Nat.ofDigitChars 10 cs m := by
    intro cs
    induction cs with
    | nil =>
      intro m _
      exact Nat.ofDigitChars_nil.symm
    | cons c cs ih =>
      intro m h
      rw [List.map_cons, List.foldl_cons, toNat_digit (h c List.mem_cons_self),
        ih _ fun c hc => h c (List.mem_cons_of_mem _ hc), Nat.ofDigitChars_cons]
      rfl
  calc number (decimal n)
      = Nat.ofDigitChars 10 (Nat.toDigits 10 n) 0 :=
        hfold _ 0 fun c hc => Nat.isDigit_of_mem_toDigits (by decide) (by decide) hc
    _ = n := Nat.ofDigitChars_ten_toDigits

/-- What comes before something that is no digit are the digits. -/
theorem takeWhile_decimal (n : ℕ) (rest : List UInt8) :
    (decimal n ++ (crlf ++ rest)).takeWhile isDigit = decimal n ∧
      (decimal n ++ (crlf ++ rest)).dropWhile isDigit = crlf ++ rest := by
  have hall : ∀ d ∈ decimal n, isDigit d = true := fun d hd => isDigit_of_mem_decimal hd
  constructor
  · rw [List.takeWhile_append_of_pos hall]
    exact List.append_nil _
  · rw [List.dropWhile_append_of_pos hall]
    rfl

/-- The end of a line. -/
def lineEnd : Format Unit where
  pack _ := crlf
  parse
    | 13 :: 10 :: bs => some ((), bs)
    | _ => none

/-- More bytes are left over. -/
theorem lineEnd_append {bs rest : List UInt8} (h : lineEnd.parse bs = some ((), rest)) (more : List UInt8) :
    lineEnd.parse (bs ++ more) = some ((), rest ++ more) := by
  unfold lineEnd at h
  dsimp only at h
  split at h
  · cases h
    rfl
  · cases h

/-- A line with a number. -/
def line : Format ℕ where
  pack n := decimal n ++ crlf
  parse bs :=
    if bs.takeWhile isDigit = [] then none
    else (lineEnd.parse (bs.dropWhile isDigit)).map fun p => (number (bs.takeWhile isDigit), p.2)

/-- A number is read back. -/
theorem line_selfDelimiting : line.SelfDelimiting where
  parse_pack n := by
    obtain ⟨htake, hdrop⟩ := takeWhile_decimal n []
    rw [List.append_nil] at htake hdrop
    simp only [line]
    rw [htake, hdrop, if_neg (decimal_ne_nil n), number_decimal]
    rfl
  parse_append := by
    intro bs n rest h more
    simp only [line] at h ⊢
    split_ifs at h with hnil
    obtain ⟨⟨⟨⟩, rest'⟩, hend, heq⟩ := Option.map_eq_some_iff.mp h
    cases heq
    -- The digits end before the end of the line.
    have hcut : bs = bs.takeWhile isDigit ++ bs.dropWhile isDigit := (List.takeWhile_append_dropWhile).symm
    have hne : bs.dropWhile isDigit ≠ [] := fun hnone => by
      rw [hnone] at hend
      cases hend
    have hlt : (bs.takeWhile isDigit).length ≠ bs.length := fun hlen => by
      have hsum := congrArg List.length hcut
      rw [List.length_append, hlen] at hsum
      exact hne (List.length_eq_zero_iff.mp (by omega))
    have htake : (bs ++ more).takeWhile isDigit = bs.takeWhile isDigit := by
      rw [List.takeWhile_append, if_neg hlt]
    have hdrop : (bs ++ more).dropWhile isDigit = bs.dropWhile isDigit ++ more := by
      rw [List.dropWhile_append, if_neg (by rwa [List.isEmpty_iff])]
    rw [htake, hdrop, if_neg hnil, lineEnd_append hend more]
    rfl

/-- A line with a number is read. -/
theorem line_parse (n : ℕ) (bs : List UInt8) : line.parse (decimal n ++ (crlf ++ bs)) = some (n, bs) := by
  have h := line_selfDelimiting.parse_pack_append n bs
  rwa [line, List.append_assoc] at h

/-- A string of any bytes. -/
def bulkString : Format (List UInt8) :=
  Format.tagged 36
    { pack := fun data => line.pack data.length ++ (data ++ crlf)
      parse := fun bs => do
        let p ← line.parse bs
        let (data, bs) ← parseData p
        let ((), bs) ← lineEnd.parse bs
        return (data, bs) }

/-- An array of values of one kind. -/
def array {α : Type} (f : Format α) : Format (List α) := (line.counted f).tagged 42

/-- A string is read back. -/
theorem bulkString_selfDelimiting : bulkString.SelfDelimiting := by
  refine Format.SelfDelimiting.tagged ?_ 36
  constructor
  · intro data
    dsimp only
    rw [line_selfDelimiting.parse_pack_append]
    simp [parseData, lineEnd, crlf]
  · intro bs data rest h more
    simp only [Option.bind_eq_bind, Option.bind_eq_some_iff, Prod.exists] at h ⊢
    obtain ⟨n, bs', hn, data', bs'', hdata, ⟨⟩, bs''', hend, heq⟩ := h
    cases heq
    exact ⟨n, bs' ++ more, line_selfDelimiting.parse_append hn more, data, bs'' ++ more,
      parseData_append hdata more, (), rest ++ more, lineEnd_append hend more, rfl⟩

/-- An array is read back. -/
theorem array_selfDelimiting {α : Type} {f : Format α} (hf : f.SelfDelimiting) :
    (array f).SelfDelimiting := (line_selfDelimiting.counted hf).tagged 42

end Resp
