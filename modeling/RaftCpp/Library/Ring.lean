import Mathlib.Data.List.Basic

/-!
# Reading a vector as a ring

A ring of a size has the positions below it, and the last one is followed by the first. What a ring buffer
holds are the values at a number of positions, from one of them on. The vector behind it may be shorter than
the ring, as long as none of these positions is behind its end.
-/

namespace Ring

variable {α : Type*} {xs ys : List α} {d x : α} {size i n k : ℕ}

/-- The position that a number of places follows another one. -/
def pos (size i k : ℕ) : ℕ := if size ≤ i + k then i + k - size else i + k

/-- The values at a number of positions, from one of them on. Behind the end of the vector there is the default
value. -/
def values (d : α) (xs : List α) (size i n : ℕ) : List α :=
  (List.range n).map fun k => xs.getD (pos size i k) d

/-- There are as many as that. -/
@[simp] theorem length_values : (values d xs size i n).length = n := by
  simp [values]

/-- None. -/
@[simp] theorem values_zero : values d xs size i 0 = [] := rfl

/-- A position of the ring. -/
theorem pos_lt (hi : i < size) (hk : k ≤ size) : pos size i k < size := by
  unfold pos
  split_ifs <;> omega

/-- The position itself. -/
theorem pos_zero (hi : i < size) : pos size i 0 = i := by
  unfold pos
  rw [if_neg (by omega), Nat.add_zero]

/-- The places that follow the next one. -/
theorem pos_succ (hi : i < size) (hk : k < size) : pos size (pos size i 1) k = pos size i (k + 1) := by
  unfold pos
  split_ifs <;> omega

/-- Different places within the size are different positions. -/
theorem pos_ne (hk : k < n) (hn : n < size) : pos size i k ≠ pos size i n := by
  unfold pos
  split_ifs <;> omega

/-- The first value, and the others. -/
theorem values_cons (hi : i < size) (hn : n < size) :
    values d xs size i (n + 1) = xs.getD i d :: values d xs size (pos size i 1) n := by
  unfold values
  rw [List.range_succ_eq_map, List.map_cons, pos_zero hi, List.map_map]
  refine congrArg _ (List.map_congr_left fun k hk => ?_)
  have hlt : k < n := List.mem_range.mp hk
  rw [pos_succ hi (by omega)]
  rfl

/-- The last value, behind the others. -/
theorem values_concat :
    values d xs size i (n + 1) = values d xs size i n ++ [xs.getD (pos size i n) d] := by
  simp [values, List.range_succ]

/-- Vectors that agree at these positions. -/
theorem values_congr (h : ∀ k < n, xs.getD (pos size i k) d = ys.getD (pos size i k) d) :
    values d xs size i n = values d ys size i n :=
  List.map_congr_left fun k hk => h k (List.mem_range.mp hk)

/-- Writing behind the last value of a ring that is not full, in a vector that may have grown at its end. -/
theorem values_set (hn : n < size) (hlt : pos size i n < (xs ++ ys).length)
    (hheld : ∀ k < n, pos size i k < xs.length) :
    values d ((xs ++ ys).set (pos size i n) x) size i (n + 1) = values d xs size i n ++ [x] := by
  have hlast : ((xs ++ ys).set (pos size i n) x).getD (pos size i n) d = x := by
    rw [List.getD_eq_getElem?_getD, List.getElem?_set_self hlt]
    rfl
  rw [values_concat, hlast]
  refine congrArg (· ++ [x]) (values_congr fun k hk => ?_)
  rw [List.getD_eq_getElem?_getD, List.getElem?_set_ne (pos_ne hk hn).symm,
    List.getElem?_append_left (hheld k hk), ← List.getD_eq_getElem?_getD]

end Ring
