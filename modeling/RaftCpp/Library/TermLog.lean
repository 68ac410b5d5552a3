import Mathlib.Data.List.Basic
import Mathlib.Tactic.Common

/-!
# Logs of entries with terms

A log is a list whose entries carry a term. Positions count from one, and the term at zero or past the
end is zero. Two logs are compared by their prefixes.
-/

namespace Consensus

variable {ε : Type*} (termOf : ε → ℕ)

/-- The term of the entry at a position, or zero outside of the log. -/
def termAt (l : List ε) : ℕ → ℕ
  | 0 => 0
  | n + 1 => (l[n]?.map termOf).getD 0

/-- The term of the last entry, or zero of an empty log. -/
def lastTerm (l : List ε) : ℕ := termAt termOf l l.length

/-- Whether the first log is at least as up to date as the second: its last term is larger, or the
last terms are equal and it is at least as long. -/
def UpToDate (l l' : List ε) : Prop :=
  lastTerm termOf l' < lastTerm termOf l ∨
    (lastTerm termOf l' = lastTerm termOf l ∧ l'.length ≤ l.length)

variable {termOf}

/-- The term before the first position is zero. -/
@[simp] theorem termAt_zero (l : List ε) : termAt termOf l 0 = 0 := rfl

/-- The term at a position of an entry. -/
theorem termAt_succ_of_getElem? {l : List ε} {n : ℕ} {e : ε} (h : l[n]? = some e) :
    termAt termOf l (n + 1) = termOf e := by
  simp [termAt, h]

/-- Past its end a log has no term. -/
theorem termAt_of_length_lt {l : List ε} {n : ℕ} (h : l.length < n) : termAt termOf l n = 0 := by
  cases n with
  | zero => rfl
  | succ n => simp [termAt, List.getElem?_eq_none (show l.length ≤ n by omega)]

/-- Where a log has a term, it has a position. -/
theorem le_length_of_termAt_ne_zero {l : List ε} {n : ℕ} (h : termAt termOf l n ≠ 0) :
    1 ≤ n ∧ n ≤ l.length := by
  constructor
  · rcases Nat.eq_zero_or_pos n with rfl | hn
    · exact absurd rfl h
    · exact hn
  · by_contra hlt
    exact h (termAt_of_length_lt (by omega))

/-- A position of the log holds an entry of its term. -/
theorem exists_entry {l : List ε} {n : ℕ} (h1 : 1 ≤ n) (hn : n ≤ l.length) :
    ∃ e, l[n - 1]? = some e ∧ e ∈ l ∧ termAt termOf l n = termOf e := by
  obtain ⟨m, rfl⟩ : ∃ m, n = m + 1 := ⟨n - 1, by omega⟩
  have hm : m < l.length := by omega
  refine ⟨l[m], ?_, List.getElem_mem hm, ?_⟩
  · simp [hm]
  · exact termAt_succ_of_getElem? (List.getElem?_eq_getElem hm)

/-- A prefix has the same terms. -/
theorem termAt_of_isPrefix {l l' : List ε} (h : l <+: l') {n : ℕ} (hn : n ≤ l.length) :
    termAt termOf l n = termAt termOf l' n := by
  cases n with
  | zero => rfl
  | succ n =>
    obtain ⟨s, rfl⟩ := h
    simp [termAt, List.getElem?_append_left (show n < l.length by omega)]

/-- Taking a part of the log keeps the terms of that part. -/
theorem termAt_take {l : List ε} {k n : ℕ} (h : n ≤ k) :
    termAt termOf (l.take k) n = termAt termOf l n := by
  cases n with
  | zero => rfl
  | succ n => simp [termAt, List.getElem?_take_of_lt (show n < k by omega)]

/-- A log is as up to date as itself. -/
theorem UpToDate.refl (l : List ε) : UpToDate termOf l l := Or.inr ⟨rfl, Nat.le_refl _⟩

/-- Longer prefixes of a log hold the shorter ones. -/
theorem take_isPrefix_take (l : List ε) {m n : ℕ} (h : m ≤ n) : l.take m <+: l.take n := by
  rw [List.prefix_take_iff]
  exact ⟨List.take_prefix m l, by simp; omega⟩

/-- A prefix of a log is what the log starts with. -/
theorem take_isPrefix_of_isPrefix {l l' : List ε} (h : l <+: l') (n : ℕ) : l.take n <+: l' :=
  (List.take_prefix n l).trans h

/-- Up to the length of a prefix, the log and the prefix start alike. -/
theorem take_eq_of_isPrefix {l l' : List ε} (h : l <+: l') {n : ℕ} (hn : n ≤ l.length) :
    l'.take n = l.take n := by
  obtain ⟨s, rfl⟩ := h
  rw [List.take_append_of_le_length hn]

/-- Two logs with a common prefix agree at the positions in it. -/
theorem getElem?_eq_of_isPrefix {p l l' : List ε} (h : p <+: l) (h' : p <+: l') {i : ℕ}
    (hi : i < p.length) : l[i]? = l'[i]? := by
  obtain ⟨s, rfl⟩ := h
  obtain ⟨s', rfl⟩ := h'
  rw [List.getElem?_append_left hi, List.getElem?_append_left hi]

end Consensus
