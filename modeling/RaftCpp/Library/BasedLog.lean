import Mathlib.Algebra.GroupWithZero.Nat
import Mathlib.Data.List.Infix

/-!
# Logs whose beginning was dropped

A log that holds the entries above an index, and of the entry at that index only the term. A run of
entries overwrites it: what the log holds from the run's first index on gives way to the run.
-/

/-- The entries above the index `base`. -/
@[ext] structure BasedLog (ε : Type*) where
  /-- The index of the last entry that was dropped. -/
  base : ℕ
  /-- The term of that entry. -/
  baseTerm : ℕ
  /-- The entries after it. -/
  entries : List ε

namespace BasedLog

variable {ε : Type*} {L : BasedLog ε} {termOf : ε → ℕ} {i j low high : ℕ} {es : List ε}

/-- The index of the first entry. -/
def firstIndex (L : BasedLog ε) : ℕ := L.base + 1

/-- The index of the last entry. -/
def lastIndex (L : BasedLog ε) : ℕ := L.base + L.entries.length

/-- The entry at an index. -/
def get? (L : BasedLog ε) (i : ℕ) : Option ε :=
  if i ≤ L.base then none else L.entries[i - L.firstIndex]?

/-- The term at an index: outside of the log it is zero. -/
def termAt (L : BasedLog ε) (termOf : ε → ℕ) (i : ℕ) : ℕ :=
  if i = L.base then L.baseTerm else ((L.get? i).map termOf).getD 0

/-- The entries in `[low, high)`. -/
def slice (L : BasedLog ε) (low high : ℕ) : List ε :=
  (L.entries.drop (low - L.firstIndex)).take (high - low)

/-- The log with other entries from an index on. -/
def overwrite (L : BasedLog ε) (j : ℕ) (es : List ε) : BasedLog ε :=
  { L with entries := L.entries.take (j - L.firstIndex) ++ es }

/-- The log without its entries up to an index. -/
def dropTo (L : BasedLog ε) (termOf : ε → ℕ) (i : ℕ) : BasedLog ε :=
  { base := i, baseTerm := L.termAt termOf i, entries := L.entries.drop (i - L.base) }

/-- The log starts where it started. -/
@[simp] theorem base_overwrite : (L.overwrite j es).base = L.base := rfl

/-- The log starts where it started. -/
@[simp] theorem firstIndex_overwrite : (L.overwrite j es).firstIndex = L.firstIndex := rfl

/-- There is an entry at every index of the log, and at no other. -/
theorem get?_isSome : (L.get? i).isSome ↔ L.firstIndex ≤ i ∧ i ≤ L.lastIndex := by
  unfold get? firstIndex lastIndex
  split_ifs with h
  · simp only [Option.isSome_none, Bool.false_eq_true, false_iff]
    omega
  · rw [isSome_getElem?]
    omega

/-- Above the base, the term is the entry's. -/
theorem termAt_of_get? {e : ε} (h : L.get? i = some e) : L.termAt termOf i = termOf e := by
  have hi := get?_isSome.mp (Option.isSome_of_mem h)
  unfold firstIndex at hi
  rw [termAt, if_neg (by omega), h]
  rfl

/-- Outside of the log, the term is zero. -/
theorem termAt_eq_zero (h : i < L.base ∨ L.lastIndex < i) : L.termAt termOf i = 0 := by
  unfold lastIndex at h
  have hnone : L.get? i = none := by
    rw [← Option.not_isSome_iff_eq_none, get?_isSome, firstIndex, lastIndex]
    omega
  rw [termAt, if_neg (by omega), hnone]
  rfl

/-- A positive term is the term of an entry of the log, or the one below it. -/
theorem mem_of_termAt_pos (h : 0 < L.termAt termOf i) : L.base ≤ i ∧ i ≤ L.lastIndex := by
  by_contra hout
  rw [termAt_eq_zero (by omega)] at h
  exact absurd h (Nat.lt_irrefl 0)

/-- A slice is as long as its range. -/
theorem length_slice (hlow : L.firstIndex ≤ low) (hhigh : high ≤ L.lastIndex + 1) :
    (L.slice low high).length = high - low := by
  unfold slice firstIndex lastIndex at *
  rw [List.length_take, List.length_drop]
  omega

/-- The entries of a slice are those at its indices. -/
theorem getElem?_slice (hlow : L.firstIndex ≤ low) (hi : low + i < high) :
    (L.slice low high)[i]? = L.get? (low + i) := by
  unfold slice get? firstIndex at *
  rw [List.getElem?_take_of_lt (by omega), List.getElem?_drop, if_neg (by omega)]
  congr 1
  omega

/-- An overwritten log ends with the new entries. -/
theorem lastIndex_overwrite (hlow : L.firstIndex ≤ j) (hhigh : j ≤ L.lastIndex + 1) :
    (L.overwrite j es).lastIndex + 1 = j + es.length := by
  unfold lastIndex overwrite firstIndex at *
  rw [List.length_append, List.length_take]
  dsimp only
  omega

/-- Below the new entries, an overwritten log is as it was. -/
theorem get?_overwrite_of_lt (hhigh : j ≤ L.lastIndex + 1) (hi : i < j) :
    (L.overwrite j es).get? i = L.get? i := by
  unfold get? overwrite firstIndex lastIndex at *
  split_ifs with h
  · rfl
  · have hi' : L.base < i := Nat.lt_of_not_le h
    show (L.entries.take (j - (L.base + 1)) ++ es)[i - (L.base + 1)]? = _
    rw [List.getElem?_append_left (by rw [List.length_take]; omega),
      List.getElem?_take_of_lt (by omega)]

/-- From the first new entry on, an overwritten log holds the new ones. -/
theorem get?_overwrite_of_le (hlow : L.firstIndex ≤ j) (hhigh : j ≤ L.lastIndex + 1) (hi : j ≤ i) :
    (L.overwrite j es).get? i = es[i - j]? := by
  unfold get? overwrite firstIndex lastIndex at *
  have hlen : (L.entries.take (j - (L.base + 1))).length = j - (L.base + 1) := by
    rw [List.length_take]
    omega
  rw [if_neg (by simp only; omega), List.getElem?_append_right (by simp only; omega), hlen]
  congr 1
  simp only
  omega

/-- Below the new entries, the terms are as they were. -/
theorem termAt_overwrite_of_lt (hhigh : j ≤ L.lastIndex + 1) (hi : i < j) :
    (L.overwrite j es).termAt termOf i = L.termAt termOf i := by
  unfold termAt
  rw [get?_overwrite_of_lt hhigh hi]
  rfl

/-- From the first new entry on, the terms are the new ones. -/
theorem termAt_overwrite_of_le (hlow : L.firstIndex ≤ j) (hhigh : j ≤ L.lastIndex + 1) (hi : j ≤ i) :
    (L.overwrite j es).termAt termOf i = (es[i - j]?.map termOf).getD 0 := by
  unfold termAt
  rw [get?_overwrite_of_le hlow hhigh hi, if_neg]
  unfold firstIndex at hlow
  show i ≠ L.base
  omega

/-- A log is determined by where it starts and ends, and by its entries. -/
theorem ext_get? {L L' : BasedLog ε} (hbase : L.base = L'.base) (hterm : L.baseTerm = L'.baseTerm)
    (hlast : L.lastIndex = L'.lastIndex)
    (hget : ∀ i, L.firstIndex ≤ i → i ≤ L.lastIndex → L.get? i = L'.get? i) : L = L' := by
  have hlen : L.entries.length = L'.entries.length := by
    unfold lastIndex at hlast
    omega
  have hentries : L.entries = L'.entries := by
    apply List.ext_getElem?
    intro n
    obtain hn | hn := Nat.lt_or_ge n L.entries.length
    · have hi := hget (L.firstIndex + n) (Nat.le_add_right _ _) (by
        unfold firstIndex lastIndex
        omega)
      unfold get? firstIndex at hi
      rwa [if_neg (by omega), if_neg (by omega), hbase, Nat.add_sub_cancel_left] at hi
    · rw [List.getElem?_eq_none hn, List.getElem?_eq_none (by omega)]
  exact BasedLog.ext hbase hterm hentries

/-- Two logs with an entry of one index and one term in common are the same up to it, as far as both
reach back. -/
def Consistent (termOf : ε → ℕ) (L L' : BasedLog ε) : Prop :=
  ∀ i e e', L.get? i = some e → L'.get? i = some e' → termOf e = termOf e' → ∀ j ≤ i,
    (L.firstIndex ≤ j → L'.firstIndex ≤ j → L.get? j = L'.get? j) ∧
      (L.base ≤ j → L'.base ≤ j → L.termAt termOf j = L'.termAt termOf j)

end BasedLog

/-! ## Prefixes within a limit -/

/-- A list is the longest prefix of another whose sizes sum up to at most the limit, or its first
element if already that is too large. -/
structure List.LongestWithin {ε : Type*} (size : ε → ℕ) (limit : ℕ) (xs ys : List ε) : Prop where
  /-- It is a prefix. -/
  isPrefix : ys <+: xs
  /-- It is not empty, unless there is nothing. -/
  ne_nil : xs ≠ [] → ys ≠ []
  /-- It keeps the limit, past the first element. -/
  fits : ys.length ≤ 1 ∨ (ys.map size).sum ≤ limit
  /-- No longer prefix does. -/
  longest : ∀ zs, zs <+: xs → (zs.map size).sum ≤ limit → zs.length ≤ ys.length

/-- It is the same for sizes that agree on the list. -/
theorem List.LongestWithin.congr {ε : Type*} {size size' : ε → ℕ} {limit : ℕ} {xs ys : List ε}
    (h : xs.LongestWithin size limit ys) (heq : ∀ x ∈ xs, size x = size' x) :
    xs.LongestWithin size' limit ys := by
  have hmap : ∀ zs, zs <+: xs → zs.map size = zs.map size' :=
    fun zs hzs => List.map_congr_left fun x hx => heq x (hzs.subset hx)
  refine ⟨h.isPrefix, h.ne_nil, ?_, fun zs hzs hle => h.longest zs hzs ?_⟩
  · rw [← hmap ys h.isPrefix]
    exact h.fits
  · rwa [hmap zs hzs]
