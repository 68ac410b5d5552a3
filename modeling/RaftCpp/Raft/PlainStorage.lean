import RaftCpp.Library.BasedLog
import RaftCpp.Library.Trace
import RaftCpp.Raft.Rounds

/-!
# The storage as a log without its beginning

The storage finds an entry by the distance of its index from the placeholder's. It stands for a log whose
beginning was dropped, and each of its calls for one on that log, except for a snapshot of an index between
the last snapshot and the placeholder: the check of `create_snapshot` lets it pass, and its distance falls
below zero.
-/

namespace RaftCpp

open Outcome

/-! ## The list that a storage denotes -/

namespace MemoryStorage

variable {s s' : MemoryStorage} {a i : ℕ} {es : List Entry}

/-- The list that the storage denotes. -/
def plain (s : MemoryStorage) : BasedLog Entry :=
  { base := s.dummy.index, baseTerm := s.dummy.term, entries := s.entries.tail }

/-- The entries of the list are those after the placeholder. -/
theorem plain_get? (hi : s.dummy.index < i) : s.plain.get? i = s.entries[i - s.dummy.index]? := by
  obtain ⟨k, rfl⟩ := Nat.exists_eq_add_of_lt hi
  unfold BasedLog.get? BasedLog.firstIndex plain
  dsimp only
  rw [if_neg (by omega), List.getElem?_tail]
  congr 1
  omega

/-- Up to the placeholder, the list has no entries. -/
theorem plain_get?_of_le (hi : i ≤ s.dummy.index) : s.plain.get? i = none := if_pos hi

/-- `append` overwrites the list, as far as it is not compacted. -/
theorem plain_append (h : s'.dummy = s.dummy) (ha : a ≤ s.lastIndex + 1)
    (hentries : s'.entries = s.entries.take (max a (s.dummy.index + 1) - s.dummy.index) ++
      es.drop (s.dummy.index + 1 - a)) (hi : s.dummy.index < i) :
    s'.plain.get? i = if i < a then s.plain.get? i else es[i - a]? := by
  have hslen := RaftLog.storage_lastIndex_succ s
  have hpos := List.length_pos_iff.mpr s.entries_ne_nil
  have htake : (s.entries.take (max a (s.dummy.index + 1) - s.dummy.index)).length =
      max a (s.dummy.index + 1) - s.dummy.index := by
    rw [List.length_take]
    omega
  rw [plain_get? (by rwa [h]), hentries, h]
  split_ifs with hlt
  · rw [plain_get? hi, List.getElem?_append_left (by omega), List.getElem?_take_of_lt (by omega)]
  · rw [List.getElem?_append_right (by omega), htake, List.getElem?_drop]
    congr 1
    omega

end MemoryStorage

/-! ## The calls -/

/-- A call of the storage. -/
inductive StorageCall
  /-- `append`. -/
  | append (entries : List Entry)
  /-- `compact`. -/
  | compact (index : ℕ)
  /-- `create_snapshot`. -/
  | createSnapshot (index : ℕ) (cs : Option ConfState) (data : Bytes)
  /-- `apply_snapshot`. -/
  | applySnapshot (snapshot : Snapshot)
  /-- `entries`. -/
  | entries (low high maxSize : ℕ)
  /-- `term`. -/
  | term (index : ℕ)
deriving DecidableEq

/-- What a call of the storage returns: the status, and what it writes to its output parameter. -/
structure StorageAnswer where
  /-- The status. -/
  status : Status := .ok
  /-- The entries. -/
  entries : List Entry := []
  /-- The term. -/
  term : ℕ := 0
  /-- The snapshot. -/
  snapshot : Snapshot := {}
deriving DecidableEq

/-- The entries to append follow one another. -/
def StorageCall.Consecutive : StorageCall → Prop
  | .append es => ∀ e ∈ es.head?, IndexedFrom e.index es
  | _ => True

instance : DecidablePred StorageCall.Consecutive
  | .append es => inferInstanceAs (Decidable (∀ e ∈ es.head?, IndexedFrom e.index es))
  | .compact _ | .createSnapshot _ _ _ | .applySnapshot _ | .entries _ _ _ | .term _ => .isTrue trivial

namespace MemoryStorage

/-- What a call returns, and the storage after it. -/
def perform (s : MemoryStorage) : StorageCall → Result (StorageAnswer × MemoryStorage)
  | .append entries => do
    let s ← s.append entries
    return ({}, s)
  | .compact index => do
    let (status, s) ← s.compact index
    return ({ status := status }, s)
  | .createSnapshot index cs data => do
    let (status, snapshot, s) ← s.createSnapshot index cs data
    return ({ status := status, snapshot := snapshot }, s)
  | .applySnapshot snapshot =>
    let (status, s) := s.applySnapshot snapshot
    .ok ({ status := status }, s)
  | .entries low high maxSize => do
    let (status, entries) ← s.entriesIn low high maxSize
    return ({ status := status, entries := entries }, s)
  | .term index =>
    match s.term index with
    | .ok term => .ok ({ term := term }, s)
    | .error status => .ok ({ status := status }, s)

/-- The storage after a call. A `LOG_FATAL` is an exception, and comes before anything is written; a failed
`assert` ends the process, and behind an access out of range nothing is defined. -/
def handle (s : MemoryStorage) (c : StorageCall) : Result MemoryStorage :=
  match s.perform c with
  | .ok (_, s) => .ok s
  | .error .outOfRange => .error .outOfRange
  | .error .assertion => .error .assertion
  | .error _ => .ok s

/-- The sequences of calls. -/
abbrev Run : MemoryStorage → List (Turn MemoryStorage StorageCall) → MemoryStorage → Prop := Trace handle

end MemoryStorage

/-! ## The log that a storage stands for -/

/-- A log whose beginning was dropped, with the last snapshot. -/
@[ext] structure PlainStorage where
  /-- The log. -/
  log : BasedLog Entry
  /-- The snapshot. -/
  snapshot : Snapshot

/-- The calls on a log whose beginning was dropped. -/
def PlainStorage.perform (S : PlainStorage) : StorageCall → Result (StorageAnswer × PlainStorage)
  | .append [] => .ok ({}, S)
  | .append (e :: es) =>
    -- All of the new entries are dropped already.
    if e.index + (e :: es).length ≤ S.log.firstIndex then .ok ({}, S)
    else if S.log.lastIndex + 1 < e.index then .error .storageMissingEntry
    else
      let first := max e.index S.log.firstIndex
      .ok ({}, { S with log := S.log.overwrite first ((e :: es).drop (first - e.index)) })
  | .compact index =>
    if index ≤ S.log.base then .ok ({ status := MemoryStorage.errCompacted }, S)
    else if S.log.lastIndex < index then .error .compactOutOfBound
    else .ok ({}, { S with log := S.log.dropTo Entry.term index })
  | .createSnapshot index cs data =>
    if index ≤ S.snapshot.metadata.index then
      .ok ({ status := .invalidArgument "requested index is older than the existing snapshot" }, S)
    else if S.log.lastIndex < index then .error .snapshotOutOfBound
    else if index < S.log.base then .ok ({ status := MemoryStorage.errCompacted }, S)
    else
      let snapshot : Snapshot :=
        { data := data
          metadata :=
            { confState := cs.getD S.snapshot.metadata.confState
              index := index
              term := S.log.termAt Entry.term index } }
      .ok ({ snapshot := snapshot }, { S with snapshot := snapshot })
  | .applySnapshot snapshot =>
    if snapshot.metadata.index ≤ S.snapshot.metadata.index then
      .ok ({ status := .invalidArgument "requested index is older than the existing snapshot" }, S)
    else
      .ok ({}, {
        log := { base := snapshot.metadata.index, baseTerm := snapshot.metadata.term, entries := [] }
        snapshot := snapshot })
  | .entries low high maxSize =>
    if high ≤ low then .error .assertion
    else if low ≤ S.log.base then .ok ({ status := MemoryStorage.errCompacted }, S)
    else if S.log.lastIndex + 1 < high then .error .storageEntriesOutOfBound
    else .ok ({ entries := entryLimitSize maxSize (S.log.slice low high) }, S)
  | .term index =>
    if index < S.log.base then .ok ({ status := MemoryStorage.errCompacted }, S)
    else if S.log.lastIndex < index then .ok ({ status := MemoryStorage.errUnavailable }, S)
    else .ok ({ term := S.log.termAt Entry.term index }, S)

namespace MemoryStorage

variable {s s' : MemoryStorage} {i j low high maxSize : ℕ} {c : StorageCall}

/-- What a storage stands for. -/
def plainStorage (s : MemoryStorage) : PlainStorage := { log := s.plain, snapshot := s.snapshot }

/-- The last index. -/
@[simp] theorem plain_lastIndex (s : MemoryStorage) : s.plain.lastIndex = s.lastIndex := by
  have hpos := List.length_pos_iff.mpr s.entries_ne_nil
  unfold BasedLog.lastIndex lastIndex plain
  rw [List.length_tail]
  dsimp only
  omega

/-- The terms are those of the log. -/
theorem plain_termAt {e : Entry} (hi : s.dummy.index ≤ i) (he : s.entries[i - s.dummy.index]? = some e) :
    s.plain.termAt Entry.term i = e.term := by
  obtain heq | hlt := Nat.eq_or_lt_of_le hi
  · subst heq
    rw [Nat.sub_self, ← List.head?_eq_getElem?, List.head?_eq_some_head s.entries_ne_nil] at he
    cases he
    exact if_pos rfl
  · exact BasedLog.termAt_of_get? (by rw [plain_get? hlt, he])

/-- The entries of a range are those of the log. -/
theorem plain_slice (hlow : s.dummy.index < low) :
    s.plain.slice low high = (s.entries.drop (low - s.dummy.index)).take (high - low) := by
  obtain ⟨rest, hrest⟩ := RaftLog.storage_entries s
  unfold BasedLog.slice BasedLog.firstIndex plain
  dsimp only
  rw [hrest, List.tail_cons, show low - s.dummy.index = low - (s.dummy.index + 1) + 1 by omega,
    List.drop_succ_cons]

/-- There is an entry at every index from the placeholder's to the last one. -/
theorem exists_getElem? (hi : s.dummy.index ≤ i) (hlast : i ≤ s.lastIndex) :
    ∃ e, s.entries[i - s.dummy.index]? = some e := by
  have hpos := List.length_pos_iff.mpr s.entries_ne_nil
  unfold lastIndex at hlast
  exact ⟨_, List.getElem?_eq_getElem (by omega)⟩

/-! ## What each call does to the log -/

/-- The index is between that of the last snapshot and that of the placeholder. -/
def BelowBase (s : MemoryStorage) : StorageCall → Prop
  | .createSnapshot index _ _ => s.snapshot.metadata.index < index ∧ index < s.dummy.index
  | _ => False

instance (s : MemoryStorage) : DecidablePred s.BelowBase
  | .createSnapshot _ _ _ => inferInstanceAs (Decidable (_ ∧ _))
  | .append _ | .compact _ | .applySnapshot _ | .entries _ _ _ | .term _ => inferInstanceAs (Decidable False)

/-- What a call does is what the same call does to the log that the storage stands for. -/
def Simulates (s : MemoryStorage) (c : StorageCall) : Prop :=
  (s.perform c).map (fun p => (p.1, p.2.plainStorage)) = s.plainStorage.perform c

/-- What is dropped already is not appended. -/
theorem append_old {e : Entry} {es : List Entry} (hold : e.index + (e :: es).length ≤ s.dummy.index + 1) :
    s.append (e :: es) = .ok s := by
  unfold append firstIndex
  dsimp only
  -- The code compares the index of the last new entry.
  rw [List.length_cons] at hold ⊢
  exact if_pos (by omega)

/-- Nothing is appended behind a gap. -/
theorem append_gap {e : Entry} {es : List Entry} (hgap : s.lastIndex + 1 < e.index) :
    s.append (e :: es) = .error .storageMissingEntry := by
  have hslen := RaftLog.storage_lastIndex_succ s
  have hpos := List.length_pos_iff.mpr s.entries_ne_nil
  have hoffset : sub64 e.index s.dummy.index = e.index - s.dummy.index := sub64_of_le (by omega)
  unfold append firstIndex
  dsimp only
  rw [List.length_cons, if_neg (by omega), Nat.sub_eq_zero_of_le (by omega), List.drop_zero]
  unfold overwrite
  dsimp only
  rw [if_neg (by omega), if_neg (by omega)]

/-- `append`. -/
theorem simulates_append {es : List Entry} (hc : (StorageCall.append es).Consecutive) :
    s.Simulates (.append es) := by
  unfold Simulates perform
  cases es with
  | nil => rfl
  | cons e es =>
    have hes : IndexedFrom e.index (e :: es) := hc e rfl
    have hlast : s.plainStorage.log.lastIndex = s.lastIndex := s.plain_lastIndex
    have hfirst : s.plainStorage.log.firstIndex = s.dummy.index + 1 := rfl
    unfold PlainStorage.perform
    dsimp only
    rw [hlast, hfirst]
    split_ifs with hold hgap
    · rw [append_old hold]
      rfl
    · rw [append_gap hgap]
      rfl
    · obtain ⟨s', happ, -, hsnap, hdummy, hentries⟩ :=
        append_ok (s := s) hes (List.cons_ne_nil _ _) (by omega) (by omega)
      have hlog : s'.plain = s.plain.overwrite (max e.index (s.dummy.index + 1))
          ((e :: es).drop (max e.index (s.dummy.index + 1) - e.index)) := by
        obtain ⟨rest, hrest⟩ := RaftLog.storage_entries s
        have hkept : max e.index (s.dummy.index + 1) - s.dummy.index =
            max e.index (s.dummy.index + 1) - (s.dummy.index + 1) + 1 := by omega
        have hnew : s.dummy.index + 1 - e.index = max e.index (s.dummy.index + 1) - e.index := by omega
        unfold plain BasedLog.overwrite BasedLog.firstIndex
        rw [hdummy, hentries, hkept, hnew, hrest, List.take_succ_cons, List.cons_append, List.tail_cons,
          List.tail_cons]
      rw [happ]
      show Except.ok (_, s'.plainStorage) = Except.ok (_, _)
      unfold plainStorage
      rw [hlog, hsnap]

/-- `compact`. -/
theorem simulates_compact (hidx : IndexedFrom s.dummy.index s.entries) (i : ℕ) : s.Simulates (.compact i) := by
  have hlast : s.plainStorage.log.lastIndex = s.lastIndex := s.plain_lastIndex
  have hbase : s.plainStorage.log.base = s.dummy.index := rfl
  unfold Simulates perform PlainStorage.perform compact
  dsimp only
  rw [hlast, hbase]
  split_ifs with hlow hhigh
  · rfl
  · rfl
  · obtain ⟨e, he⟩ := s.exists_getElem? (Nat.le_of_not_le hlow) (Nat.le_of_not_lt hhigh)
    have hindex : e.index = i := by
      rw [hidx _ e he]
      omega
    have hterm := s.plain_termAt (Nat.le_of_not_le hlow) he
    have hlog : ({ s with
        entries := { s.dummy with index := e.index, term := e.term } ::
          s.entries.drop (i - s.dummy.index + 1)
        entries_ne_nil := List.cons_ne_nil _ _ } : MemoryStorage).plain =
          s.plain.dropTo Entry.term i := by
      obtain ⟨rest, hrest⟩ := RaftLog.storage_entries s
      unfold BasedLog.dropTo
      rw [hterm, ← hindex]
      unfold plain
      rw [hrest]
      rfl
    unfold elemAt
    rw [he]
    show Except.ok (_, plainStorage _) = Except.ok (_, _)
    unfold plainStorage
    rw [hlog]

/-- `create_snapshot`, where its index is not between that of the last snapshot and the placeholder's. -/
theorem simulates_createSnapshot {cs : Option ConfState} {data : Bytes}
    (hnot : ¬s.BelowBase (.createSnapshot i cs data)) : s.Simulates (.createSnapshot i cs data) := by
  have hlast : s.plainStorage.log.lastIndex = s.lastIndex := s.plain_lastIndex
  have hbase : s.plainStorage.log.base = s.dummy.index := rfl
  have hsnap : s.plainStorage.snapshot = s.snapshot := rfl
  unfold Simulates perform PlainStorage.perform createSnapshot
  dsimp only
  rw [hlast, hbase, hsnap]
  split_ifs with hold hhigh hlow
  · rfl
  · rfl
  · exact absurd ⟨Nat.lt_of_not_le hold, hlow⟩ hnot
  · obtain ⟨e, he⟩ := s.exists_getElem? (Nat.le_of_not_lt hlow) (Nat.le_of_not_lt hhigh)
    have hterm : s.plainStorage.log.termAt Entry.term i = e.term := s.plain_termAt (Nat.le_of_not_lt hlow) he
    rw [hterm]
    unfold elemAt
    rw [sub64_of_le (Nat.le_of_not_lt hlow), he]
    rfl

/-- `apply_snapshot`. -/
theorem simulates_applySnapshot (snapshot : Snapshot) : s.Simulates (.applySnapshot snapshot) := by
  have hsnap : s.plainStorage.snapshot = s.snapshot := rfl
  unfold Simulates perform PlainStorage.perform applySnapshot
  dsimp only
  rw [hsnap]
  by_cases hold : snapshot.metadata.index ≤ s.snapshot.metadata.index
  · rw [if_pos hold, if_pos hold]
    rfl
  · rw [if_neg hold, if_neg hold]
    rfl

/-- `entries`. -/
theorem simulates_entries (low high maxSize : ℕ) : s.Simulates (.entries low high maxSize) := by
  have hlast : s.plainStorage.log.lastIndex = s.lastIndex := s.plain_lastIndex
  have hbase : s.plainStorage.log.base = s.dummy.index := rfl
  have hslen := RaftLog.storage_lastIndex_succ s
  unfold Simulates perform PlainStorage.perform entriesIn
  dsimp only
  rw [hlast, hbase]
  by_cases horder : low < high
  · rw [if_neg (not_not.mpr horder), if_neg (Nat.not_le_of_gt horder)]
    split_ifs with hlow hhigh hone
    · rfl
    · rfl
    · -- A storage without entries has none between its placeholder and its last index.
      omega
    · have hslice : s.plainStorage.log.slice low high = _ := plain_slice (Nat.lt_of_not_le hlow)
      rw [hslice]
      rfl
  · rw [if_pos horder, if_pos (Nat.le_of_not_lt horder)]
    rfl

/-- `term`. -/
theorem simulates_term (i : ℕ) : s.Simulates (.term i) := by
  have hlast : s.plainStorage.log.lastIndex = s.lastIndex := s.plain_lastIndex
  have hbase : s.plainStorage.log.base = s.dummy.index := rfl
  have hslen := RaftLog.storage_lastIndex_succ s
  unfold Simulates perform PlainStorage.perform term
  dsimp only
  rw [hlast, hbase]
  by_cases hlow : i < s.dummy.index
  · rw [if_pos hlow, if_pos hlow]
    rfl
  · rw [if_neg hlow, if_neg hlow]
    by_cases hhigh : s.lastIndex < i
    · rw [if_pos hhigh, List.getElem?_eq_none (by omega)]
      rfl
    · obtain ⟨e, he⟩ := s.exists_getElem? (Nat.le_of_not_lt hlow) (Nat.le_of_not_lt hhigh)
      have hterm : s.plainStorage.log.termAt Entry.term i = e.term := s.plain_termAt (Nat.le_of_not_lt hlow) he
      rw [if_neg hhigh, he, hterm]
      rfl

/-- Each call does what the same call does to the log that the storage stands for. -/
theorem simulates (hidx : IndexedFrom s.dummy.index s.entries) (hc : c.Consecutive) (hnot : ¬s.BelowBase c) :
    s.Simulates c := by
  cases c with
  | append es => exact simulates_append hc
  | compact i => exact simulates_compact hidx i
  | createSnapshot i cs data => exact simulates_createSnapshot hnot
  | applySnapshot snapshot => exact simulates_applySnapshot snapshot
  | entries low high maxSize => exact simulates_entries low high maxSize
  | term i => exact simulates_term i

/-! ## What each call keeps -/

/-- The entries stay consecutive. -/
theorem perform_indexed (hidx : IndexedFrom s.dummy.index s.entries) (hc : c.Consecutive) :
    Ensures (s.perform c) fun p => IndexedFrom p.2.dummy.index p.2.entries := by
  have hsame : ∀ s' : MemoryStorage, s'.entries = s.entries → IndexedFrom s'.dummy.index s'.entries := by
    rintro ⟨hs, snap, es, hne⟩ rfl
    exact hidx
  unfold perform
  cases c with
  | append es =>
    refine Ensures.bind (P := fun s' => IndexedFrom s'.dummy.index s'.entries) ?_ fun s' hs' => Ensures.pure hs'
    cases es with
    | nil => exact Ensures.ok hidx
    | cons e es =>
      by_cases hold : e.index + (e :: es).length ≤ s.dummy.index + 1
      · rw [append_old hold]
        exact Ensures.ok hidx
      by_cases hgap : s.lastIndex + 1 < e.index
      · rw [append_gap hgap]
        exact Ensures.error
      · have hnew := Nat.lt_of_not_le hold
        have hnext := Nat.le_of_not_lt hgap
        exact (append_indexed hidx (hc e rfl) (List.cons_ne_nil _ _) hnext hnew).mono fun s' hs' => hs'.2.2.1
  | compact i =>
    refine Ensures.bind (compact_spec hidx i) ?_
    rintro ⟨status, s'⟩ (rfl | ⟨-, hdummy, -, hindexed, -⟩)
    · exact Ensures.pure hidx
    · dsimp only at hdummy hindexed
      exact Ensures.pure (by rw [hdummy]; exact hindexed)
  | createSnapshot i cs data =>
    refine Ensures.bind (createSnapshot_spec i cs data) ?_
    rintro ⟨status, snapshot, s'⟩ (rfl | ⟨-, hentries⟩)
    · exact Ensures.pure hidx
    · exact Ensures.pure (hsame s' hentries)
  | applySnapshot snapshot =>
    suffices happly : IndexedFrom (s.applySnapshot snapshot).2.dummy.index (s.applySnapshot snapshot).2.entries from
      Ensures.ok happly
    unfold applySnapshot
    split_ifs
    · exact hidx
    · -- The placeholder is alone.
      intro k e he
      cases k with
      | zero =>
        cases he
        rfl
      | succ k => cases he
  | entries low high maxSize => exact Ensures.bind Ensures.any fun p _ => Ensures.pure hidx
  | term i =>
    dsimp only
    cases s.term i with
    | ok term => exact Ensures.ok hidx
    | error status => exact Ensures.ok hidx

/-- A call that returns an error changes nothing. -/
theorem perform_unchanged (s : MemoryStorage) (c : StorageCall) :
    Ensures (s.perform c) fun p => p.1.status ≠ .ok → p.2 = s := by
  unfold perform
  cases c with
  | append es => exact Ensures.bind Ensures.any fun s' _ => Ensures.pure fun hne => absurd rfl hne
  | compact i =>
    refine Ensures.bind (P := fun p => p.1 ≠ .ok → p.2 = s) ?_ fun p hp => Ensures.pure hp
    unfold compact
    refine Ensures.ite (fun _ => Ensures.pure fun _ => rfl) fun _ => ?_
    refine Ensures.ite (fun _ => Ensures.error) fun _ => ?_
    exact Ensures.bind Ensures.any fun e _ => Ensures.pure fun hne => absurd rfl hne
  | createSnapshot i cs data =>
    refine Ensures.bind (P := fun p => p.1 ≠ .ok → p.2.2 = s) ?_ fun p hp => Ensures.pure hp
    unfold createSnapshot
    refine Ensures.ite (fun _ => Ensures.pure fun _ => rfl) fun _ => ?_
    refine Ensures.ite (fun _ => Ensures.error) fun _ => ?_
    exact Ensures.bind Ensures.any fun e _ => Ensures.pure fun hne => absurd rfl hne
  | applySnapshot snapshot =>
    suffices happly : (s.applySnapshot snapshot).1 ≠ .ok → (s.applySnapshot snapshot).2 = s from Ensures.ok happly
    unfold applySnapshot
    split_ifs
    · exact fun _ => rfl
    · exact fun hne => absurd rfl hne
  | entries low high maxSize => exact Ensures.bind Ensures.any fun p _ => Ensures.pure fun _ => rfl
  | term i =>
    dsimp only
    cases s.term i with
    | ok term => exact Ensures.ok fun _ => rfl
    | error status => exact Ensures.ok fun _ => rfl

/-- A call that comes back leaves the storage as it says, or as it was. -/
theorem handle_cases (h : s.handle c = .ok s') :
    (∃ a, s.perform c = .ok (a, s')) ∨ (∃ e, s.perform c = .error e) ∧ s' = s := by
  unfold handle at h
  split at h
  · next a s₁ hp =>
    cases h
    exact Or.inl ⟨a, hp⟩
  · cases h
  · cases h
  · next e _ _ hp =>
    cases h
    exact Or.inr ⟨⟨e, hp⟩, rfl⟩

/-- The entries stay consecutive, also in a call that throws. -/
theorem handle_indexed (hidx : IndexedFrom s.dummy.index s.entries) (hc : c.Consecutive)
    (h : s.handle c = .ok s') : IndexedFrom s'.dummy.index s'.entries := by
  obtain ⟨a, hp⟩ | ⟨-, rfl⟩ := handle_cases h
  · exact perform_indexed hidx hc _ hp
  · exact hidx

/-- The loop of `entries` stays within the entries. -/
theorem perform_reads (s : MemoryStorage) (low high maxSize : ℕ) :
    Ensures (s.perform (.entries low high maxSize)) fun p =>
      p.1.status = .ok → high - s.dummy.index ≤ s.entries.length := by
  have hslen := RaftLog.storage_lastIndex_succ s
  refine Ensures.bind (s.entriesIn_spec low high maxSize) fun p hp => Ensures.pure fun hok => ?_
  obtain ⟨-, -, hhigh⟩ := hp hok
  omega

/-- The log is not read out of range. -/
theorem plain_inRange (S : PlainStorage) (c : StorageCall) : S.perform c ≠ .error .outOfRange := by
  unfold PlainStorage.perform
  cases c with
  | append es =>
    cases es with
    | nil => exact nofun
    | cons e es =>
      dsimp only
      split_ifs <;> exact nofun
  | _ =>
    dsimp only
    split_ifs <;> exact nofun

/-! ## Sequences of calls -/

/-- What is asked of a storage, and of a call on it. -/
structure Refines (s : MemoryStorage) (c : StorageCall) : Prop where
  /-- The entries are consecutive. -/
  consecutive : IndexedFrom s.dummy.index s.entries
  /-- They stay so. -/
  indexed : ∀ s', s.handle c = .ok s' → IndexedFrom s'.dummy.index s'.entries
  /-- No entry is read out of range. -/
  inRange : s.perform c ≠ .error .outOfRange
  /-- Nor by `entries`, whose loop reads up to the distance of `high`. -/
  reads : ∀ low high maxSize a s', c = .entries low high maxSize → s.perform c = .ok (a, s') → a.status = .ok →
    high - s.dummy.index ≤ s.entries.length
  /-- A call that returns an error changes nothing. -/
  unchanged : ∀ a s', s.perform c = .ok (a, s') → a.status ≠ .ok → s' = s
  /-- Nor does one that throws. -/
  thrown : ∀ e s', s.perform c = .error e → s.handle c = .ok s' → s' = s
  /-- The call does what the same call does to the log that the storage stands for. -/
  simulates : s.Simulates c

/-- Over an index between that of the last snapshot and the placeholder's, `create_snapshot` does not do what
it would do to the log. -/
theorem not_simulates_createSnapshot {cs : Option ConfState} {data : Bytes}
    (hbelow : s.BelowBase (.createSnapshot i cs data)) : ¬s.Simulates (.createSnapshot i cs data) := by
  obtain ⟨hsnap, hlow⟩ := hbelow
  have hplain : s.plainStorage.perform (.createSnapshot i cs data) =
      .ok ({ status := errCompacted }, s.plainStorage) := by
    have hslen := RaftLog.storage_lastIndex_succ s
    have hpos := List.length_pos_iff.mpr s.entries_ne_nil
    have hlast : s.plainStorage.log.lastIndex = s.lastIndex := s.plain_lastIndex
    have hold : ¬i ≤ s.plainStorage.snapshot.metadata.index := Nat.not_le_of_gt hsnap
    unfold PlainStorage.perform
    dsimp only
    rw [if_neg hold, hlast, if_neg (by omega)]
    exact if_pos hlow
  intro hsim
  unfold Simulates at hsim
  rw [hplain] at hsim
  have hstatus : Ensures (s.perform (.createSnapshot i cs data)) fun p => p.1.status = .ok := by
    unfold perform
    refine Ensures.bind (P := fun p => p.1 = .ok) ?_ fun p hp => Ensures.pure hp
    unfold createSnapshot
    rw [if_neg (Nat.not_le_of_gt hsnap)]
    refine Ensures.ite (fun _ => Ensures.error) fun _ => ?_
    exact Ensures.bind Ensures.any fun e _ => Ensures.pure rfl
  cases hp : s.perform (.createSnapshot i cs data) with
  | error e =>
    rw [hp] at hsim
    cases hsim
  | ok p =>
    rw [hp] at hsim
    have heq := congrArg StorageAnswer.status (Prod.ext_iff.mp (Except.ok.inj hsim)).1
    cases (hstatus p hp).symm.trans heq

end MemoryStorage

/-- Three entries are appended, and the first two are compacted. -/
def compactedTwo : List (Turn MemoryStorage StorageCall) × MemoryStorage :=
  Trace.run MemoryStorage.handle .empty
    [.append [{ index := 1, term := 1 }, { index := 2, term := 1 }, { index := 3, term := 1 }], .compact 2]

end RaftCpp
