import RaftCpp.Library.TermLog
import RaftCpp.Raft.Entries
import RaftCpp.Replication.LogSafe

/-!
# The log as a list

As long as nothing is compacted, the storage and the unstable part together stand for the list of all
entries, the entry of index `i + 1` at position `i`. Each operation of `RaftLog` is specified by what it
does to that list.
-/

namespace RaftCpp

open Consensus Outcome

namespace RaftLog

/-- The entries of a log of which nothing is compacted. -/
def toList (l : RaftLog) : List Entry :=
  (l.storage.entries.drop 1).take (l.unstable.offset - 1) ++ l.unstable.entries

/-- What holds of a log of which nothing is compacted. -/
structure Uncompacted (l : RaftLog) : Prop where
  /-- The placeholder stands before the first index. -/
  dummy_index : l.storage.dummy.index = 0
  /-- The placeholder has no term. -/
  dummy_term : l.storage.dummy.term = 0
  /-- No snapshot came in. -/
  no_snapshot : l.unstable.snapshot = none
  /-- The unstable part starts at an index. -/
  offset_pos : 1 ≤ l.unstable.offset
  /-- The unstable part continues the storage, or overrides a part of it. -/
  offset_le : l.unstable.offset ≤ l.storage.entries.length
  /-- Where nothing is unstable, nothing is overridden. -/
  offset_eq : l.unstable.entries = [] → l.unstable.offset = l.storage.entries.length
  /-- The entries carry their indices. -/
  indexed : IndexedFrom 1 l.toList

namespace Uncompacted

variable {l : RaftLog} (h : l.Uncompacted)

include h

/-- The number of entries, by their two parts. -/
theorem length_toList :
    l.toList.length = l.unstable.offset - 1 + l.unstable.entries.length := by
  have := h.offset_le
  simp only [toList, List.length_append, List.length_take, List.length_drop]
  omega

/-- The first index is one. -/
theorem firstIndex_eq : l.firstIndex = 1 := by
  simp [firstIndex, Unstable.maybeFirstIndex, h.no_snapshot, MemoryStorage.firstIndex,
    h.dummy_index]

/-- The last index is the number of entries. -/
theorem lastIndex_eq : l.lastIndex = l.toList.length := by
  rw [h.length_toList]
  have hpos := h.offset_pos
  have hle := h.offset_le
  by_cases hnil : l.unstable.entries = []
  · have := h.offset_eq hnil
    simp only [lastIndex, Unstable.maybeLastIndex, hnil, List.length_nil, h.no_snapshot,
      MemoryStorage.lastIndex, h.dummy_index, ne_eq, not_true_eq_false, if_false, Option.map_none,
      Option.getD_none]
    omega
  · have hlen := List.length_pos_iff.mpr hnil
    simp only [lastIndex, Unstable.maybeLastIndex, show l.unstable.entries.length ≠ 0 by omega,
      ne_eq, not_false_eq_true, if_true, Option.getD_some]
    omega

/-- The term at an index is the term of the entry there. -/
theorem term_eq (i : ℕ) : l.term i = .ok (termAt Entry.term l.toList i) := by
  have hpos := h.offset_pos
  have hle := h.offset_le
  have hlen := h.length_toList
  unfold RaftLog.term
  rw [h.firstIndex_eq, h.lastIndex_eq]
  by_cases hi : i < 1 - 1 ∨ i > l.toList.length
  · rw [if_pos hi, termAt_of_length_lt (by omega)]
  rw [if_neg hi]
  unfold Unstable.maybeTerm
  rw [h.no_snapshot]
  by_cases hlow : i < l.unstable.offset
  · -- The entry is in the storage.
    obtain ⟨rest, hrest⟩ := storage_entries l.storage
    rw [if_pos hlow]
    simp only [MemoryStorage.term, h.dummy_index, Nat.not_lt_zero, if_false, Nat.sub_zero]
    rw [hrest] at hle ⊢
    cases i with
    | zero => simp [h.dummy_term]
    | succ i =>
      simp only [List.length_cons] at hle
      have hi' : i < rest.length := by omega
      have hget : l.toList[i]? = some rest[i] := by
        rw [toList, hrest, List.getElem?_append_left (by simp; omega),
          List.getElem?_take_of_lt (by omega)]
        simp [hi']
      rw [termAt_succ_of_getElem? hget]
      simp [hi']
  · rw [if_neg hlow]
    obtain ⟨j, rfl⟩ : ∃ j, i = j + 1 := ⟨i - 1, by omega⟩
    have hj : j + 1 - l.unstable.offset < l.unstable.entries.length := by omega
    have hget : l.toList[j]? = some l.unstable.entries[j + 1 - l.unstable.offset] := by
      rw [toList, List.getElem?_append_right (by simp; omega)]
      rw [← List.getElem?_eq_getElem hj]
      congr 1
      simp only [List.length_take, List.length_drop]
      omega
    rw [termAt_succ_of_getElem? hget]
    simp [hj]

/-- The last term is that of the last entry. -/
theorem lastTerm_eq : l.lastTerm = Consensus.lastTerm Entry.term l.toList := by
  unfold RaftLog.lastTerm Consensus.lastTerm
  rw [h.term_eq, h.lastIndex_eq]

/-- A term matches when it is that of the entry. -/
theorem matchTerm_iff (i t : ℕ) : l.matchTerm i t = true ↔ t = termAt Entry.term l.toList i := by
  unfold RaftLog.matchTerm
  rw [h.term_eq]
  simp

/-- The comparison of `is_up_to_date` is that of the logs. -/
theorem isUpToDate_iff {l' : List Entry} :
    l.isUpToDate l'.length (Consensus.lastTerm Entry.term l') = true ↔
      UpToDate Entry.term l' l.toList := by
  unfold RaftLog.isUpToDate UpToDate
  rw [h.lastTerm_eq, h.lastIndex_eq]
  simp only [Bool.or_eq_true, decide_eq_true_eq, Bool.and_eq_true, beq_iff_eq]
  constructor
  · rintro (h1 | ⟨h1, h2⟩)
    · exact Or.inl h1
    · exact Or.inr ⟨h1.symm, h2⟩
  · rintro (h1 | ⟨h1, h2⟩)
    · exact Or.inl h1
    · exact Or.inr ⟨h1.symm, h2⟩

end Uncompacted

/-- The entries of the list are those of the log. -/
theorem Uncompacted.entryAt_succ {l : RaftLog} (h : l.Uncompacted) (i : ℕ) :
    l.entryAt (i + 1) = l.toList[i]? := by
  have hpos := h.offset_pos
  have hle := h.offset_le
  have hlen : ((l.storage.entries.drop 1).take (l.unstable.offset - 1)).length =
      l.unstable.offset - 1 := by
    simp only [List.length_take, List.length_drop]
    omega
  unfold entryAt toList
  rw [h.dummy_index, if_neg (by omega)]
  split_ifs with hi
  · rw [List.getElem?_append_left (by omega), List.getElem?_take_of_lt (by omega),
      List.getElem?_drop, Nat.add_comm 1 i, Nat.sub_zero]
  · rw [List.getElem?_append_right (by omega), hlen]
    congr 1
    omega

/-- No entry stands at the index zero. -/
theorem Uncompacted.entryAt_zero {l : RaftLog} (h : l.Uncompacted) : l.entryAt 0 = none := by
  unfold entryAt
  rw [h.dummy_index, if_pos (Nat.le_refl 0)]

/-- Where two logs agree up to an index, they hold the same entries up to there. -/
theorem Uncompacted.entryAt_eq {l l' : RaftLog} (h : l.Uncompacted) (h' : l'.Uncompacted) {n i : ℕ}
    (htake : l.toList.take n = l'.toList.take n) (hi : i ≤ n) : l.entryAt i = l'.entryAt i := by
  cases i with
  | zero => rw [h.entryAt_zero, h'.entryAt_zero]
  | succ i =>
    rw [h.entryAt_succ, h'.entryAt_succ, ← List.getElem?_take_of_lt (l := l.toList) hi, htake,
      List.getElem?_take_of_lt hi]

/-- A log whose list is extended keeps its entries. -/
theorem Uncompacted.entryAt_of_isPrefix {l l' : RaftLog} (h : l.Uncompacted) (h' : l'.Uncompacted)
    {n i : ℕ} {e : Entry} (hp : l.toList.take n <+: l'.toList) (hi : i ≤ n)
    (he : l.entryAt i = some e) : l'.entryAt i = some e := by
  cases i with
  | zero =>
    rw [h.entryAt_zero] at he
    cases he
  | succ i =>
    rw [h.entryAt_succ, ← List.getElem?_take_of_lt (l := l.toList) hi] at he
    obtain ⟨t, ht⟩ := hp
    rw [h'.entryAt_succ, ← ht, List.getElem?_append_left (List.getElem?_eq_some_iff.mp he).1, he]

/-- An entry of the log stands at an index of the list, which has its term. -/
theorem Uncompacted.termAt_of_entryAt {l : RaftLog} (h : l.Uncompacted) {i : ℕ} {e : Entry}
    (he : l.entryAt i = some e) :
    1 ≤ i ∧ i ≤ l.toList.length ∧ termAt Entry.term l.toList i = e.term := by
  cases i with
  | zero =>
    rw [h.entryAt_zero] at he
    cases he
  | succ i =>
    rw [h.entryAt_succ] at he
    exact ⟨Nat.succ_pos i, (List.getElem?_eq_some_iff.mp he).1, termAt_succ_of_getElem? he⟩

/-! ## Reading -/

/-- A slice of the unstable part, where it is within that part. -/
theorem unstableSlice_spec (u : Unstable) {low high : ℕ} (hlow : u.offset ≤ low)
    (hhigh : high ≤ u.offset + u.entries.length) :
    LogSafe (u.slice low high) fun es =>
      es = (u.entries.drop (low - u.offset)).take (high - low) ∧ low < high := by
  unfold Unstable.slice
  refine Secures.ite (fun _ => Secures.error fun h => h) fun hlt => ?_
  rw [if_neg (by omega)]
  exact Secures.ok ⟨rfl, not_not.mp hlt⟩

/-- A slice of the unstable part is a part of the log. -/
theorem sliceUnstable_spec {l : RaftLog} (h : l.Uncompacted) {low high maxSize : ℕ}
    {stable : List Entry} (hlow : 1 ≤ low) (hhigh : high ≤ l.toList.length + 1)
    (hstable : stable = (l.toList.drop (low - 1)).take (min high l.unstable.offset - low)) :
    LogSafe (l.sliceUnstable low high maxSize stable) fun p =>
      p.2 <+: (l.toList.drop (low - 1)).take (high - low) ∧ p.1 = .ok := by
  have hlen := h.length_toList
  have hpos := h.offset_pos
  unfold sliceUnstable
  refine Secures.ite (fun hoff => ?_) fun hoff => ?_
  · refine Secures.bind (P := fun es =>
        stable ++ es = (l.toList.drop (low - 1)).take (high - low)) ?_ fun es hes => ?_
    · refine (unstableSlice_spec _ (Nat.le_max_right _ _) (by omega)).mono ?_
      rintro es ⟨rfl, h1⟩
      have hle := h.offset_le
      have hun : l.unstable.entries = l.toList.drop (l.unstable.offset - 1) := by
        rw [toList, List.drop_append_of_le_length (by simp; omega),
          List.drop_eq_nil_of_le (by simp only [List.length_take]; omega),
          List.nil_append]
      rw [hstable, hun, List.drop_drop,
        show l.unstable.offset - 1 + (max low l.unstable.offset - l.unstable.offset) =
          (low - 1) + (min high l.unstable.offset - low) by omega, ← List.drop_drop,
        show high - max low l.unstable.offset =
          (high - low) - (min high l.unstable.offset - low) by omega,
        ← List.take_add, Nat.add_sub_cancel' (by omega)]
    · refine Secures.pure ⟨?_, rfl⟩
      rw [hes]
      exact entryLimitSize_isPrefix _ _
  · refine Secures.pure ⟨?_, rfl⟩
    rw [hstable, Nat.min_eq_left (by omega)]
    exact entryLimitSize_isPrefix _ _

/-- A slice is a part of the log, and it is available from the first index on. -/
theorem slice_spec {l : RaftLog} (h : l.Uncompacted) (low high maxSize : ℕ) :
    LogSafe (l.slice low high maxSize) fun p =>
      p.2 <+: (l.toList.drop (low - 1)).take (high - low) ∧ (1 ≤ low → p.1 = .ok) := by
  have hlen := h.length_toList
  have hpos := h.offset_pos
  unfold slice
  refine Secures.bind (P := fun st =>
      st = .ok ∧ 1 ≤ low ∧ high ≤ l.toList.length + 1 ∨ st.isOk = false ∧ low < 1) ?_ ?_
  · unfold mustCheckOutOfBounds
    rw [h.firstIndex_eq, h.lastIndex_eq, sub64_of_le (Nat.succ_pos _)]
    refine Secures.ite (fun _ => Secures.error fun h => h) fun _ => ?_
    refine Secures.ite (fun hlow => Secures.ok (Or.inr ⟨rfl, hlow⟩)) fun hlow => ?_
    refine Secures.ite (fun _ => Secures.error fun h => h) fun hhigh => ?_
    exact Secures.ok (Or.inl ⟨rfl, by omega, by omega⟩)
  rintro st (⟨rfl, hlow, hhigh⟩ | ⟨hst, hlow⟩)
  · simp only [Status.isOk, not_true_eq_false, if_false]
    refine Secures.ite (fun _ => Secures.pure ⟨List.nil_prefix, fun _ => rfl⟩) fun hne => ?_
    refine Secures.ite (fun hoff => ?_) fun hoff => ?_
    · refine Secures.bind (P := fun p => p.1 = .ok ∧
          p.2 <+: (l.toList.drop (low - 1)).take (min high l.unstable.offset - low)) ?_ ?_
      · have hle := h.offset_le
        unfold MemoryStorage.entriesIn
        rw [h.dummy_index]
        refine Secures.ite (fun _ => Secures.error fun h => h) fun h1 => ?_
        refine Secures.ite (fun _ => by omega) fun h2 => ?_
        refine Secures.ite (fun _ => Secures.error fun h => h) fun h3 => ?_
        refine Secures.ite (fun _ => by omega) fun h4 => Secures.ok ?_
        · refine ⟨rfl, (entryLimitSize_isPrefix _ _).trans ?_⟩
          have hmin : min high l.unstable.offset - low ≤ l.unstable.offset - 1 - (low - 1) := by
            omega
          rw [toList, List.drop_append_of_le_length (by simp; omega),
            List.take_append_of_le_length (by simp; omega), List.drop_take, List.take_take,
            Nat.min_eq_left hmin, List.drop_drop, show 1 + (low - 1) = low - 0 by omega]
      · rintro ⟨st, es⟩ ⟨hst, hes⟩
        dsimp only at hst hes ⊢
        subst hst
        simp only [not_true_eq_false, if_false]
        refine Secures.ite (fun _ => Secures.pure ⟨?_, fun _ => rfl⟩) fun hfull => ?_
        · exact hes.trans (take_isPrefix_take _ (by omega))
        · refine (sliceUnstable_spec h hlow hhigh (hes.eq_of_length ?_)).mono fun p hp => ⟨hp.1, fun _ => hp.2⟩
          have := hes.length_le
          simp only [List.length_take, List.length_drop] at this ⊢
          omega
    · refine (sliceUnstable_spec h hlow hhigh ?_).mono fun p hp => ⟨hp.1, fun _ => hp.2⟩
      rw [show min high l.unstable.offset - low = 0 by omega, List.take_zero]
  · simp only [hst, Bool.false_eq_true, not_false_eq_true, if_true]
    exact Secures.pure ⟨List.nil_prefix, fun hlow' => by omega⟩

/-- The entries from an index on are a part of the log, and are available from the first index on. -/
theorem entries_spec {l : RaftLog} (h : l.Uncompacted) (i maxSize : ℕ) :
    LogSafe (l.entries i maxSize) fun p =>
      p.2 <+: l.toList.drop (i - 1) ∧ (1 ≤ i → p.1 = .ok) := by
  unfold RaftLog.entries
  refine Secures.ite (fun _ => Secures.ok ⟨List.nil_prefix, fun _ => rfl⟩) fun hi => ?_
  refine (slice_spec h _ _ _).mono fun p hp => ⟨hp.1.trans (List.take_prefix _ _), hp.2⟩

/-- What is handed out for application is read from the log without a failure of it. -/
theorem nextEntries_safe {l : RaftLog} (h : l.Uncompacted) :
    LogSafe l.nextEntries fun _ => True := by
  unfold nextEntries
  apply Secures.ite
  · intro _
    refine Secures.bind (slice_spec h _ _ _) fun p _ => ?_
    apply Secures.ite
    · exact fun _ => Secures.pure trivial
    · exact fun _ => Secures.error fun h => h
  · exact fun _ => Secures.pure trivial

/-! ## Writing -/

/-- Moving the commit index leaves the entries alone. -/
@[simp] theorem toList_committed (l : RaftLog) (k : ℕ) :
    ({ l with committed := k } : RaftLog).toList = l.toList := rfl

/-- Moving the commit index keeps the log uncompacted. -/
theorem Uncompacted.committed {l : RaftLog} (h : l.Uncompacted) (k : ℕ) :
    ({ l with committed := k } : RaftLog).Uncompacted :=
  ⟨h.dummy_index, h.dummy_term, h.no_snapshot, h.offset_pos, h.offset_le, h.offset_eq, h.indexed⟩

/-- `commit_to` raises the commit index to one within the log. -/
theorem commitTo_spec {l : RaftLog} (h : l.Uncompacted) {k : ℕ}
    (hk : k ≤ l.committed ∨ k ≤ l.toList.length) :
    LogSafe (l.commitTo k) fun l' => l' = { l with committed := max l.committed k } := by
  unfold commitTo
  rw [h.lastIndex_eq]
  refine Secures.ite (fun hlt => ?_) fun hge => Secures.ok ?_
  · rw [if_neg (by omega), Nat.max_eq_right (by omega)]
    exact Secures.ok rfl
  · rw [Nat.max_eq_left (by omega)]

/-- `append` overwrites the log from the first new entry on. -/
theorem append_spec {l : RaftLog} (h : l.Uncompacted) {k : ℕ} {es : List Entry}
    (hes : IndexedFrom (k + 1) es) (hne : es ≠ []) (hk : k ≤ l.toList.length)
    (hcom : l.committed ≤ k) :
    LogSafe (l.append es) fun l' =>
      l'.Uncompacted ∧ l'.toList = l.toList.take k ++ es ∧ l'.committed = l.committed := by
  have hlen := h.length_toList
  have hpos := h.offset_pos
  have hle := h.offset_le
  obtain ⟨e, es', rfl⟩ := List.exists_cons_of_ne_nil hne
  have hidx := hes.head
  unfold append
  simp only [hidx]
  rw [sub64_of_le (by omega), Nat.add_sub_cancel, if_neg (by omega)]
  refine Secures.bind (P := fun u => u.snapshot = none ∧ 1 ≤ u.offset ∧
      u.offset ≤ l.storage.entries.length ∧ u.entries ≠ [] ∧
      (l.storage.entries.drop 1).take (u.offset - 1) ++ u.entries =
        l.toList.take k ++ e :: es') ?_ ?_
  · unfold Unstable.truncateAndAppend
    simp only [hidx]
    refine Secures.ite (fun hend => ?_) fun hend => ?_
    · refine Secures.pure ⟨h.no_snapshot, hpos, hle, by simp, ?_⟩
      have hall : l.toList.take k = l.toList := List.take_of_length_le (by omega)
      rw [hall, toList, List.append_assoc]
    refine Secures.ite (fun hlow => ?_) fun hlow => ?_
    · refine Secures.pure ⟨h.no_snapshot, by simp, by simp; omega, by simp, ?_⟩
      simp only [Nat.add_sub_cancel]
      rw [toList, List.take_append_of_le_length (by simp; omega), List.take_take,
        Nat.min_eq_left (by omega)]
    · refine Secures.bind (P := fun kept => kept = l.unstable.entries.take (k + 1 - l.unstable.offset))
        ?_ fun kept hkept => Secures.pure ⟨h.no_snapshot, hpos, hle, by simp, ?_⟩
      · refine (unstableSlice_spec _ (Nat.le_refl _) (by omega)).mono ?_
        rintro kept ⟨rfl, -⟩
        rw [Nat.sub_self, List.drop_zero]
      · rw [hkept, ← List.append_assoc]
        congr 1
        have hlenS : ((l.storage.entries.drop 1).take (l.unstable.offset - 1)).length =
            l.unstable.offset - 1 := by
          simp only [List.length_take, List.length_drop]
          omega
        rw [toList, List.take_append, hlenS, List.take_of_length_le (l := List.take _ _) (by omega)]
        congr 2
        omega
  · rintro u ⟨hsnap, hupos, hule, hune, hlist⟩
    refine Secures.pure ⟨⟨h.dummy_index, h.dummy_term, hsnap, hupos, hule,
      fun hnil => absurd hnil hune, ?_⟩, hlist, rfl⟩
    show IndexedFrom 1 ((l.storage.entries.drop 1).take (u.offset - 1) ++ u.entries)
    rw [hlist]
    refine (h.indexed.of_isPrefix (List.take_prefix _ _)).append ?_
    rwa [List.length_take, Nat.min_eq_left hk, Nat.add_comm]

/-- `find_conflict` either finds all the entries in the log, or splits them at the first one that the
log does not hold. -/
theorem findConflict_spec {l : RaftLog} (h : l.Uncompacted) :
    ∀ {k : ℕ} {es : List Entry}, IndexedFrom (k + 1) es →
      (l.findConflict es = 0 ∧ ∀ e ∈ es, e.term = termAt Entry.term l.toList e.index) ∨
      ∃ pre e post, es = pre ++ e :: post ∧ l.findConflict es = k + pre.length + 1 ∧
        (∀ e' ∈ pre, e'.term = termAt Entry.term l.toList e'.index) ∧
        e.term ≠ termAt Entry.term l.toList (k + pre.length + 1) := by
  intro k es
  induction es generalizing k with
  | nil => exact fun _ => Or.inl ⟨rfl, fun e he => absurd he List.not_mem_nil⟩
  | cons e es ih =>
    intro hes
    unfold findConflict
    by_cases hm : l.matchTerm e.index e.term = true
    · rw [if_pos hm]
      rw [h.matchTerm_iff] at hm
      rcases ih hes.tail with ⟨h0, hall⟩ | ⟨pre, e', post, rfl, hci, hpre, hne⟩
      · refine Or.inl ⟨h0, fun e' he' => ?_⟩
        rcases List.mem_cons.mp he' with rfl | he'
        · exact hm
        · exact hall e' he'
      · refine Or.inr ⟨e :: pre, e', post, rfl, ?_, fun e'' he'' => ?_, ?_⟩
        · rw [hci, List.length_cons]
          omega
        · rcases List.mem_cons.mp he'' with rfl | he''
          · exact hm
          · exact hpre e'' he''
        · rw [List.length_cons, show k + (pre.length + 1) + 1 = k + 1 + pre.length + 1 by omega]
          exact hne
    · rw [if_neg hm]
      rw [h.matchTerm_iff] at hm
      refine Or.inr ⟨[], e, es, rfl, ?_, fun e' he' => absurd he' List.not_mem_nil, ?_⟩
      · rw [hes.head, List.length_nil, Nat.add_zero]
      · rw [List.length_nil, Nat.add_zero, ← hes.head]
        exact hm

/-- What a leader's log has to satisfy for a follower to append a part of it: it is indexed, its
entries have terms, and a log that holds one of its entries agrees with it up to there. -/
structure Appendable (l L : List Entry) : Prop where
  /-- The entries carry their indices. -/
  indexed : IndexedFrom 1 L
  /-- The entries have terms. -/
  pos : ∀ n, 1 ≤ n → n ≤ L.length → 0 < termAt Entry.term L n
  /-- A common entry means a common prefix. -/
  agree : ∀ n, n ≤ L.length → termAt Entry.term l n = termAt Entry.term L n →
    n ≤ l.length ∧ l.take n = L.take n

/-- When all the entries match, the log holds the leader's log up to the last of them. -/
theorem Appendable.take_eq_of_match {l L : List Entry} (hL : Appendable l L) {k : ℕ}
    {pre post : List Entry} (hes : pre ++ post <+: L.drop k) (hk : k ≤ L.length)
    (hterm : termAt Entry.term l k = termAt Entry.term L k)
    (hpre : ∀ e ∈ pre, e.term = termAt Entry.term l e.index) :
    k + pre.length ≤ l.length ∧ l.take (k + pre.length) = L.take (k + pre.length) := by
  have hlen := hes.length_le
  rw [List.length_append, List.length_drop] at hlen
  refine hL.agree _ (by omega) ?_
  rcases List.eq_nil_or_concat pre with rfl | ⟨init, e, rfl⟩
  · simpa using hterm
  · -- The last of the matching entries.
    have hget : L[k + init.length]? = some e := by
      obtain ⟨s, hs⟩ := hes
      rw [← List.getElem?_drop, ← hs]
      simp
    have hidx := hL.indexed _ _ hget
    have hm := hpre e (by simp)
    rw [hidx] at hm
    rw [List.concat_eq_append, List.length_append, List.length_singleton, ← Nat.add_assoc,
      termAt_succ_of_getElem? hget, hm, Nat.add_comm 1]

/-- `maybe_append` of a part of a leader's log: the log then holds the leader's log up to the last new
index. It loses entries only where it disagrees with the leader's log. -/
theorem maybeAppend_spec {l : RaftLog} (h : l.Uncompacted) {L es : List Entry} {k : ℕ}
    (hL : Appendable l.toList L) (hk : k ≤ L.length) (hes : es <+: L.drop k)
    (hclen : l.committed ≤ l.toList.length) (hcp : l.toList.take l.committed <+: L) (commit : ℕ) :
    LogSafe (l.maybeAppend k (termAt Entry.term L k) commit es) fun p =>
      (p.1 = none ∧ p.2 = l) ∨
      (p.1 = some (k + es.length) ∧ p.2.Uncompacted ∧
        L.take (k + es.length) <+: p.2.toList ∧
        (p.2.toList = l.toList ∨ (p.2.toList = L.take (k + es.length) ∧
          ∃ i < k + es.length, l.toList[i]? ≠ L[i]?)) ∧
        p.2.committed = max l.committed (min commit (k + es.length)) ∧
        p.2.committed ≤ p.2.toList.length) := by
  have hidx : IndexedFrom (k + 1) es := by
    have := (hL.indexed.drop k).of_isPrefix hes
    rwa [Nat.add_comm 1] at this
  have hlen : k + es.length ≤ L.length := by
    have := hes.length_le
    rw [List.length_drop] at this
    omega
  unfold maybeAppend
  refine Secures.ite (fun hm => ?_) fun _ => Secures.pure (Or.inl ⟨rfl, rfl⟩)
  rw [h.matchTerm_iff] at hm
  refine Secures.bind (P := fun l' => l'.Uncompacted ∧ L.take (k + es.length) <+: l'.toList ∧
      (l'.toList = l.toList ∨ (l'.toList = L.take (k + es.length) ∧
        ∃ i < k + es.length, l.toList[i]? ≠ L[i]?)) ∧ l'.committed = l.committed ∧
      l'.committed ≤ l'.toList.length) ?_ ?_
  · unfold appendFrom
    rcases findConflict_spec h hidx with ⟨hci, hall⟩ | ⟨pre, e, post, rfl, hci, hpre, hne⟩
    · -- All the entries are there already.
      rw [hci]
      have hnil : es ++ [] <+: L.drop k := by rwa [List.append_nil]
      obtain ⟨hle, heq⟩ := hL.take_eq_of_match hnil hk hm.symm hall
      exact Secures.ok ⟨h, heq ▸ List.take_prefix _ _, Or.inl rfl, rfl, hclen⟩
    · obtain ⟨hle, heq⟩ := hL.take_eq_of_match hes hk hm.symm hpre
      -- The first conflicting entry is where the two logs part.
      have hget : L[k + pre.length]? = some e := by
        obtain ⟨s, hs⟩ := hes
        rw [← List.getElem?_drop, ← hs]
        simp
      have hpart : l.toList[k + pre.length]? ≠ L[k + pre.length]? := by
        rw [hget]
        exact fun hsome => hne (termAt_succ_of_getElem? hsome).symm
      -- What is committed is in the leader's log, so that the conflict is above it.
      have hcom : l.committed ≤ k + pre.length := by
        by_contra hlt
        apply hpart
        rw [← List.getElem?_take_of_lt (l := l.toList) (not_le.mp hlt)]
        obtain ⟨t, rfl⟩ := hcp
        rw [List.getElem?_append_left]
        rw [List.length_take]
        omega
      have hn : sub64 (k + pre.length + 1) (k + 1) = pre.length := by
        rw [sub64_of_le (by omega)]
        omega
      dsimp only
      rw [hci, hn, if_neg (by omega), if_neg (by omega), if_neg (by simp), List.drop_left]
      have hpost : IndexedFrom (k + pre.length + 1) (e :: post) := by
        have := hidx.drop pre.length
        rwa [List.drop_left, Nat.add_right_comm] at this
      refine (append_spec h hpost (by simp) hle hcom).mono fun l' hl' => ?_
      obtain ⟨hun, hlist, hcom'⟩ := hl'
      have htake : l'.toList = L.take (k + (pre ++ e :: post).length) := by
        obtain ⟨s, hs⟩ := hes
        have hpre' : (L.drop k).take pre.length = pre := by
          rw [← hs, List.append_assoc, List.take_left]
        have hall : (L.drop k).take (pre ++ e :: post).length = pre ++ e :: post := by
          rw [← hs, List.take_left]
        rw [hlist, heq, List.take_add, List.take_add, hpre', hall, List.append_assoc]
      refine ⟨hun, htake ▸ List.prefix_rfl, Or.inr ⟨htake, k + pre.length, by simp, hpart⟩, hcom', ?_⟩
      rw [hcom', htake, List.length_take, List.length_append, List.length_cons]
      rw [List.length_append, List.length_cons] at hlen
      omega
  · rintro l' ⟨hun, hp, hlist, hcom, hlel⟩
    have hreach : k + es.length ≤ l'.toList.length := by
      have := hp.length_le
      rwa [List.length_take, Nat.min_eq_left hlen] at this
    refine Secures.bind (commitTo_spec hun (Or.inr ((Nat.min_le_right _ _).trans hreach))) ?_
    rintro l'' rfl
    refine Secures.pure (Or.inr ⟨rfl, hun.committed _, hp, hlist, by rw [hcom], ?_⟩)
    simp only [toList_committed]
    omega

/-- `maybe_commit` moves the commit index at most to the given index, which then holds an entry of the
given term. -/
theorem maybeCommit_spec {l : RaftLog} (h : l.Uncompacted) (maxIndex : ℕ) {term : ℕ} (ht : term ≠ 0) :
    LogSafe (l.maybeCommit maxIndex term) fun p =>
      p.2 = l ∨ (p.2 = { l with committed := maxIndex } ∧ l.committed < maxIndex ∧
        maxIndex ≤ l.toList.length ∧ termAt Entry.term l.toList maxIndex = term) := by
  unfold maybeCommit
  refine Secures.ite (fun hlt => ?_) fun _ => Secures.pure (Or.inl rfl)
  rw [h.term_eq]
  refine Secures.ite (fun hterm => ?_) fun _ => Secures.pure (Or.inl rfl)
  have hle : maxIndex ≤ l.toList.length := (le_length_of_termAt_ne_zero (hterm ▸ ht)).2
  refine Secures.bind (commitTo_spec h (Or.inr hle)) ?_
  rintro l' rfl
  refine Secures.pure (Or.inr ⟨?_, hlt, hle, hterm⟩)
  simp only
  rw [Nat.max_eq_right (by omega)]

/-! ## Persisting -/

/-- The placeholder is the first of the stored entries. -/
theorem dummy_eq {s : MemoryStorage} {d : Entry} {rest : List Entry} (h : s.entries = d :: rest) :
    s.dummy = d := by
  simp [MemoryStorage.dummy, h]

/-- Writing the unstable entries to the storage cuts the storage at the offset, and continues it with
them. -/
theorem append_unstable_spec {l : RaftLog} (h : l.Uncompacted) :
    LogSafe (l.storage.append l.unstable.entries) fun st =>
      l.unstable.entries = [] ∧ st = l.storage ∨ l.unstable.entries ≠ [] ∧
        st.entries = l.storage.entries.take l.unstable.offset ++ l.unstable.entries := by
  have hpos := h.offset_pos
  cases hun : l.unstable.entries with
  | nil => exact Secures.ok (Or.inl ⟨rfl, rfl⟩)
  | cons e es =>
    have hidx : IndexedFrom l.unstable.offset (e :: es) := by
      have := h.indexed.drop (l.unstable.offset - 1)
      have hle := h.offset_le
      rw [toList, List.drop_append_of_le_length (by simp; omega),
        List.drop_eq_nil_of_le (by simp only [List.length_take]; omega), List.nil_append, hun,
        Nat.add_sub_cancel' hpos] at this
      exact this
    have hhead := hidx.head
    have hcond : ¬ e.index + (e :: es).length - 1 < 1 := by
      rw [hhead, List.length_cons]
      omega
    have hoff : sub64 e.index l.storage.dummy.index = l.unstable.offset := by
      rw [h.dummy_index, sub64_of_le (Nat.zero_le _), Nat.sub_zero, hhead]
    unfold MemoryStorage.append
    simp only [MemoryStorage.firstIndex, h.dummy_index, Nat.zero_add, if_neg hcond,
      show 1 - e.index = 0 by omega, List.drop_zero]
    unfold MemoryStorage.overwrite
    simp only [hoff]
    refine Secures.ite (fun _ => Secures.ok (Or.inr ⟨by simp, rfl⟩)) fun hge => ?_
    refine Secures.ite (fun heq => Secures.ok (Or.inr ⟨by simp, ?_⟩)) fun _ => Secures.error fun h => h
    rw [← heq, List.take_length]

/-- The apply cursor may move freely. -/
theorem appliedTo_eq (l : RaftLog) (k : ℕ) : ∃ k', l.appliedTo k = { l with applied := k' } := by
  unfold appliedTo
  split_ifs
  · exact ⟨_, rfl⟩
  · exact ⟨_, rfl⟩

/-- Moving the apply cursor keeps the log uncompacted. -/
theorem Uncompacted.withApplied {l : RaftLog} (h : l.Uncompacted) (k : ℕ) :
    ({ l with applied := k } : RaftLog).Uncompacted :=
  ⟨h.dummy_index, h.dummy_term, h.no_snapshot, h.offset_pos, h.offset_le, h.offset_eq, h.indexed⟩

/-- Once the unstable entries are written to the storage and reported as stable, the log stands for
the same list. -/
theorem persist_spec {l : RaftLog} (h : l.Uncompacted) {st : MemoryStorage} {e : Entry}
    (hst : st.entries = l.storage.entries.take l.unstable.offset ++ l.unstable.entries)
    (he : l.unstable.entries.getLast? = some e) (applied : ℕ) :
    (({ l with storage := st, applied := applied } : RaftLog).stableTo e.index e.term).Uncompacted ∧
      (({ l with storage := st, applied := applied } : RaftLog).stableTo e.index e.term).toList =
        l.toList := by
  have hpos := h.offset_pos
  have hle := h.offset_le
  obtain ⟨rest, hrest⟩ := storage_entries l.storage
  obtain ⟨off, hoff⟩ : ∃ off, l.unstable.offset = off + 1 := ⟨l.unstable.offset - 1, by omega⟩
  have hlenS : rest.length ≥ off := by
    rw [hrest, List.length_cons] at hle
    omega
  have hst' : st.entries = l.storage.dummy :: (rest.take off ++ l.unstable.entries) := by
    rw [hst, hrest, hoff, List.take_succ_cons, List.cons_append]
  have hdummy := dummy_eq hst'
  have hlist : l.toList = rest.take off ++ l.unstable.entries := by
    rw [toList, hrest, hoff, Nat.add_sub_cancel]
    rfl
  -- The last unstable entry is at the end of the list.
  have hidx : e.index = off + l.unstable.entries.length := by
    have hlast : l.toList.getLast? = some e := by
      rw [hlist, List.getLast?_append, he]
      rfl
    have := h.indexed.getLast? hlast
    rw [hlist, List.length_append, List.length_take] at this
    omega
  have hne : l.unstable.entries.length ≠ 0 := by
    intro h0
    rw [List.length_eq_zero_iff.mp h0] at he
    cases he
  have hterm : l.unstable.maybeTerm e.index = some e.term := by
    unfold Unstable.maybeTerm
    rw [if_neg (by omega), hidx, hoff, show off + l.unstable.entries.length - (off + 1) =
      l.unstable.entries.length - 1 by omega, ← List.getLast?_eq_getElem?, he]
    rfl
  have hstable : ({ l with storage := st, applied := applied } : RaftLog).stableTo e.index e.term =
      { l with
        storage := st, applied := applied
        unstable := { l.unstable with entries := [], offset := e.index + 1 } } := by
    unfold RaftLog.stableTo Unstable.stableTo
    simp only [hterm, true_and]
    rw [if_pos (by omega), List.drop_of_length_le (by omega)]
  have htoList : ({ l with
      storage := st, applied := applied
      unstable := { l.unstable with entries := [], offset := e.index + 1 } } : RaftLog).toList =
        l.toList := by
    rw [hlist, toList, hst']
    simp only [List.drop_succ_cons, List.drop_zero, List.append_nil, Nat.add_sub_cancel]
    rw [List.take_of_length_le]
    rw [List.length_append, List.length_take]
    omega
  have hlen : st.entries.length = e.index + 1 := by
    rw [hst', List.length_cons, List.length_append, List.length_take]
    omega
  rw [hstable]
  refine ⟨⟨hdummy ▸ h.dummy_index, hdummy ▸ h.dummy_term, h.no_snapshot, Nat.le_add_left _ _,
    Nat.le_of_eq hlen.symm, fun _ => hlen.symm, ?_⟩, htoList⟩
  rw [htoList]
  exact h.indexed

end RaftLog

end RaftCpp
