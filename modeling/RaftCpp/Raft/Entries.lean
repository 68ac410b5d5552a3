import Mathlib.Data.List.Infix
import RaftCpp.Library.Outcome
import RaftCpp.Raft.State

/-!
# The entries of a log by their indices

A log holds an entry in its storage or in its unstable part, which overrides the storage from its offset
on. What `slice` returns are the entries of the indices that it was asked for.
-/

namespace RaftCpp

open Outcome

/-- The entries carry their positions, counted from the given index. -/
def IndexedFrom (k : ℕ) (es : List Entry) : Prop := ∀ (i : ℕ) (e : Entry), es[i]? = some e → e.index = k + i

namespace IndexedFrom

/-- Later entries carry later indices. -/
theorem drop {k : ℕ} {es : List Entry} (h : IndexedFrom k es) (n : ℕ) :
    IndexedFrom (k + n) (es.drop n) := by
  intro i e he
  rw [List.getElem?_drop] at he
  rw [h _ e he]
  omega

/-- A prefix carries the same indices. -/
theorem of_isPrefix {k : ℕ} {es es' : List Entry} (h : IndexedFrom k es') (hp : es <+: es') :
    IndexedFrom k es := by
  intro i e he
  obtain ⟨hi, -⟩ := List.getElem?_eq_some_iff.mp he
  obtain ⟨s, rfl⟩ := hp
  exact h i e (by rw [List.getElem?_append_left hi, he])

/-- Two runs of entries carry their positions when the second continues the first. -/
theorem append {k : ℕ} {es es' : List Entry} (h : IndexedFrom k es)
    (h' : IndexedFrom (k + es.length) es') : IndexedFrom k (es ++ es') := by
  intro i e he
  rcases Nat.lt_or_ge i es.length with hi | hi
  · rw [List.getElem?_append_left hi] at he
    exact h i e he
  · rw [List.getElem?_append_right hi] at he
    rw [h' _ e he]
    omega

/-- The first entry carries the first index. -/
theorem head {k : ℕ} {e : Entry} {es : List Entry} (h : IndexedFrom k (e :: es)) : e.index = k :=
  h 0 e rfl

/-- The entries after the first one. -/
theorem tail {k : ℕ} {e : Entry} {es : List Entry} (h : IndexedFrom k (e :: es)) :
    IndexedFrom (k + 1) es := h.drop 1

/-- The last entry carries the last index. -/
theorem getLast? {k : ℕ} {e : Entry} {es : List Entry} (h : IndexedFrom k es)
    (he : es.getLast? = some e) : e.index + 1 = k + es.length := by
  have hne : es ≠ [] := by
    rintro rfl
    cases he
  have hpos := List.length_pos_iff.mpr hne
  rw [List.getLast?_eq_getElem?] at he
  rw [h _ e he]
  omega

end IndexedFrom

namespace RaftLog

/-- The storage starts with its placeholder. -/
theorem storage_entries (s : MemoryStorage) : ∃ rest, s.entries = s.dummy :: rest :=
  ⟨s.entries.tail, (List.cons_head_tail s.entries_ne_nil).symm⟩

/-- The entry at an index, unless it is compacted or past the end. -/
def entryAt (l : RaftLog) (i : ℕ) : Option Entry :=
  if i ≤ l.storage.dummy.index then none
  else if i < l.unstable.offset then l.storage.entries[i - l.storage.dummy.index]?
  else l.unstable.entries[i - l.unstable.offset]?

/-- The entries in `[low, high)`, as the storage and the unstable part hold them. -/
def range (l : RaftLog) (low high : ℕ) : List Entry :=
  (l.storage.entries.drop (low - l.storage.dummy.index)).take (min high l.unstable.offset - low) ++
    (l.unstable.entries.drop (max low l.unstable.offset - l.unstable.offset)).take
      (high - max low l.unstable.offset)

/-- The committed entries that are not applied yet. -/
def unappliedEntries (l : RaftLog) : List Entry :=
  (List.range' (l.applied + 1) (l.committed - l.applied)).filterMap l.entryAt

end RaftLog

/-! ## Reading -/

/-- What the storage returns. -/
theorem MemoryStorage.entriesIn_spec (s : MemoryStorage) (low high maxSize : ℕ) :
    Ensures (s.entriesIn low high maxSize) fun p => p.1 = .ok →
      p.2 = entryLimitSize maxSize ((s.entries.drop (low - s.dummy.index)).take (high - low)) ∧
        s.dummy.index < low ∧ high ≤ s.lastIndex + 1 := by
  unfold entriesIn
  refine Ensures.ite (fun _ => Ensures.error) fun _ => ?_
  refine Ensures.ite (fun _ => Ensures.ok nofun) fun hlow => ?_
  refine Ensures.ite (fun _ => Ensures.error) fun hhigh => ?_
  refine Ensures.ite (fun _ => Ensures.ok nofun) fun _ => Ensures.ok fun _ => ?_
  exact ⟨rfl, by omega, by omega⟩

/-- What the unstable part returns. -/
theorem Unstable.slice_spec (u : Unstable) (low high : ℕ) :
    Ensures (u.slice low high) fun es =>
      es = (u.entries.drop (low - u.offset)).take (high - low) ∧ u.offset ≤ low ∧
        high ≤ u.offset + u.entries.length := by
  unfold slice
  refine Ensures.ite (fun _ => Ensures.error) fun _ => ?_
  refine Ensures.ite (fun _ => Ensures.error) fun hbound => Ensures.ok ?_
  exact ⟨rfl, by omega, by omega⟩

namespace RaftLog

/-- What `slice` adds to the part of the storage. -/
theorem sliceUnstable_prefix (l : RaftLog) {low high maxSize : ℕ} {stable : List Entry}
    (hstable : stable = (l.storage.entries.drop (low - l.storage.dummy.index)).take
      (min high l.unstable.offset - low)) :
    Ensures (l.sliceUnstable low high maxSize stable) fun p =>
      p.2 = entryLimitSize maxSize (l.range low high) := by
  unfold sliceUnstable range
  rw [← hstable]
  refine Ensures.ite (fun hhigh => ?_) fun hhigh => ?_
  · refine Ensures.bind (l.unstable.slice_spec _ _) fun es hes => Ensures.pure ?_
    rw [hes.1]
  · refine Ensures.pure ?_
    rw [show high - max low l.unstable.offset = 0 by omega, List.take_zero, List.append_nil]

/-- What `slice` returns is a prefix of what the log holds, and without a limit all of it. From the
storage it returns only what is not compacted. -/
theorem slice_prefix (l : RaftLog) (low high maxSize : ℕ) :
    Ensures (l.slice low high maxSize) fun p => p.1 = .ok →
      (p.2 <+: l.range low high ∧ (maxSize = unlimited → p.2 = l.range low high)) ∧
        (low < high → low < l.unstable.offset → l.storage.dummy.index < low) := by
  have hlimit : ∀ {es : List Entry}, es = entryLimitSize maxSize (l.range low high) →
      es <+: l.range low high ∧ (maxSize = unlimited → es = l.range low high) := by
    rintro es rfl
    refine ⟨entryLimitSize_isPrefix _ _, fun hmax => ?_⟩
    rw [hmax]
    exact entryLimitSize_unlimited _
  unfold slice
  refine Ensures.bind (P := fun status => status = .ok → low ≤ high) ?_ fun status hle => ?_
  · unfold mustCheckOutOfBounds
    refine Ensures.ite (fun _ => Ensures.error) fun hle => ?_
    refine Ensures.ite (fun _ => Ensures.ok nofun) fun _ => ?_
    exact Ensures.ite (fun _ => Ensures.error) fun _ => Ensures.ok fun _ => by omega
  refine Ensures.ite (fun hst => Ensures.pure fun hok => ?_) fun hst => ?_
  · rw [show status = .ok from hok] at hst
    exact absurd rfl hst
  refine Ensures.ite (fun heq => Ensures.pure fun _ => ⟨?_, fun hlt => by omega⟩) fun hne => ?_
  · rw [range, heq, show min high l.unstable.offset - high = 0 by omega,
      show high - max high l.unstable.offset = 0 by omega]
    simp
  refine Ensures.ite (fun hoff => ?_) fun hoff => ?_
  · refine Ensures.bind (l.storage.entriesIn_spec _ _ _) fun p hp => ?_
    refine Ensures.ite (fun hst => Ensures.pure fun hok => ?_) fun hst => ?_
    · rw [show p.1 = .ok from hok] at hst
      exact absurd rfl hst
    obtain ⟨hes, hdummy, hhigh⟩ := hp (Status.isOk_iff.mp (not_not.mp hst))
    have hlen : ((l.storage.entries.drop (low - l.storage.dummy.index)).take
        (min high l.unstable.offset - low)).length = min high l.unstable.offset - low := by
      unfold MemoryStorage.lastIndex at hhigh
      simp only [List.length_take, List.length_drop]
      omega
    refine Ensures.ite (fun hshort => Ensures.pure fun _ => ⟨?_, fun _ _ => hdummy⟩) fun hfull => ?_
    · -- The storage reached the limit, so that there is one.
      constructor
      · rw [hes]
        exact (entryLimitSize_isPrefix _ _).trans (List.prefix_append _ _)
      · intro hmax
        rw [hes, hmax] at hshort
        rw [show entryLimitSize unlimited _ = _ from entryLimitSize_unlimited _] at hshort
        omega
    · have hall : p.2 = (l.storage.entries.drop (low - l.storage.dummy.index)).take
          (min high l.unstable.offset - low) := by
        rw [hes] at hfull ⊢
        exact (entryLimitSize_isPrefix _ _).eq_of_length_le (by omega)
      exact (l.sliceUnstable_prefix hall).mono fun q hq _ => ⟨hlimit hq, fun _ _ => hdummy⟩
  · have hnil : [] = (l.storage.entries.drop (low - l.storage.dummy.index)).take
        (min high l.unstable.offset - low) := by
      rw [show min high l.unstable.offset - low = 0 by omega, List.take_zero]
    exact (l.sliceUnstable_prefix hnil).mono fun q hq _ => ⟨hlimit hq, fun _ hlt => absurd hlt hoff⟩

/-- Without a limit, `slice` returns every entry that the log holds at the indices. -/
theorem mem_of_slice {l : RaftLog} {low high i : ℕ} {es : List Entry} {e : Entry}
    (h : l.slice low high unlimited = .ok (.ok, es)) (hlow : low ≤ i) (hhigh : i < high)
    (he : l.entryAt i = some e) : e ∈ es := by
  obtain ⟨⟨-, hes⟩, hdummy⟩ := l.slice_prefix low high unlimited _ h rfl
  have hes : es = l.range low high := hes rfl
  rw [hes, range, List.mem_append]
  unfold entryAt at he
  split_ifs at he with h₁ h₂
  · -- In the storage.
    have hlt := hdummy (by omega) (by omega)
    refine Or.inl (List.mem_of_getElem? (i := i - low) ?_)
    rw [List.getElem?_take_of_lt (by omega), List.getElem?_drop, ← he]
    congr 1
    omega
  · refine Or.inr (List.mem_of_getElem? (i := i - max low l.unstable.offset) ?_)
    rw [List.getElem?_take_of_lt (by omega), List.getElem?_drop, ← he]
    congr 1
    omega

/-- The entries of a range are those at its indices. -/
theorem range_getElem? (l : RaftLog) {low high i : ℕ} (hlow : low ≤ i) (hhigh : i < high)
    (hdummy : l.storage.dummy.index < low)
    (hstorage : low < l.unstable.offset → min high l.unstable.offset ≤ l.storage.lastIndex + 1) :
    (l.range low high)[i - low]? = l.entryAt i := by
  have hlen : ((l.storage.entries.drop (low - l.storage.dummy.index)).take
      (min high l.unstable.offset - low)).length = min high l.unstable.offset - low := by
    unfold MemoryStorage.lastIndex at hstorage
    simp only [List.length_take, List.length_drop]
    omega
  unfold range entryAt
  rw [if_neg (by omega)]
  split_ifs with hoff
  · rw [List.getElem?_append_left (by omega), List.getElem?_take_of_lt (by omega),
      List.getElem?_drop]
    congr 1
    omega
  · rw [List.getElem?_append_right (by omega), hlen, List.getElem?_take_of_lt (by omega),
      List.getElem?_drop]
    congr 1
    omega

end RaftLog

namespace Raft

/-- The entries to append carry the leader's term and the next indices. -/
theorem stampEntries_spec (term : ℕ) :
    ∀ (index : ℕ) (es : List Entry), IndexedFrom index (stampEntries term index es) ∧
      ∀ e ∈ stampEntries term index es, e.term = term
  | _, [] => ⟨fun _ _ h => by simp [stampEntries] at h, fun _ h => by simp [stampEntries] at h⟩
  | index, e :: es => by
    obtain ⟨hidx, hterm⟩ := stampEntries_spec term (index + 1) es
    refine ⟨fun j e' he' => ?_, fun e' he' => ?_⟩
    · cases j with
      | zero =>
        cases he'
        rfl
      | succ j =>
        rw [hidx j e' he']
        omega
    · rcases List.mem_cons.mp he' with rfl | he'
      · rfl
      · exact hterm e' he'

end Raft

end RaftCpp
