import RaftCpp.Raft.Proto

/-!
# The in-memory storage

`MemoryStorage` of `raft-kv/raft/storage.h` and `raft-kv/raft/storage.cpp`: the persisted part of the
log. Its first entry is a placeholder that holds the index and the term at which the storage was last
compacted, so that the entry vector is never empty. The model carries that as a field.
-/

namespace RaftCpp

/-- The persisted hard state, snapshot, and log entries of a node. -/
structure MemoryStorage where
  /-- The hard state. -/
  hardState : HardState := {}
  /-- The most recent snapshot. -/
  snapshot : Snapshot := {}
  /-- The placeholder of the compacted part, and the entries above it. -/
  entries : List Entry := [{}]
  /-- The placeholder is always there. -/
  entries_ne_nil : entries ≠ [] := by exact List.cons_ne_nil _ _

namespace MemoryStorage

/-- An empty storage, as the constructor makes it. -/
def empty : MemoryStorage := {}

/-- The empty storage is the default one. -/
instance : Inhabited MemoryStorage := ⟨empty⟩

/-- The placeholder, `entries_[0]`. -/
def dummy (s : MemoryStorage) : Entry := s.entries.head s.entries_ne_nil

/-- `last_index`. -/
def lastIndex (s : MemoryStorage) : ℕ := s.dummy.index + s.entries.length - 1

/-- `first_index`. -/
def firstIndex (s : MemoryStorage) : ℕ := s.dummy.index + 1

/-- `initial_state`. -/
def initialState (s : MemoryStorage) : HardState × ConfState :=
  (s.hardState, s.snapshot.metadata.confState)

/-- `set_hard_state`. -/
def setHardState (s : MemoryStorage) (hs : HardState) : MemoryStorage := { s with hardState := hs }

/-- The status of a request below the compacted index. -/
def errCompacted : Status :=
  .invalidArgument "requested index is unavailable due to compaction"

/-- The status of a request above the last index. -/
def errUnavailable : Status := .invalidArgument "requested entry at index is unavailable"

/-- `entries`: the entries in `[low, high)`, up to the size limit. -/
def entriesIn (s : MemoryStorage) (low high maxSize : ℕ) : Result (Status × List Entry) :=
  if ¬ low < high then .error .assertion
  else if low ≤ s.dummy.index then .ok (errCompacted, [])
  else if high > s.lastIndex + 1 then .error .storageEntriesOutOfBound
  else if s.entries.length = 1 then .ok (errUnavailable, [])
  else
    .ok (.ok, entryLimitSize maxSize ((s.entries.drop (low - s.dummy.index)).take (high - low)))

/-- `term`. -/
def term (s : MemoryStorage) (i : ℕ) : Except Status ℕ :=
  if i < s.dummy.index then .error errCompacted
  else
    match s.entries[i - s.dummy.index]? with
    | some e => .ok e.term
    | none => .error errUnavailable

/-- `compact`: drop the entries up to the index, which becomes the placeholder's. -/
def compact (s : MemoryStorage) (compactIndex : ℕ) : Result (Status × MemoryStorage) := do
  if compactIndex ≤ s.dummy.index then return (errCompacted, s)
  else if compactIndex > s.lastIndex then .error .compactOutOfBound
  else
    let e ← elemAt s.entries (compactIndex - s.dummy.index)
    return (.ok, { s with
      entries := { s.dummy with index := e.index, term := e.term } ::
        s.entries.drop (compactIndex - s.dummy.index + 1)
      entries_ne_nil := List.cons_ne_nil _ _ })

/-- `append`, after it dropped the entries that are compacted already: overwrite the storage from
the first new entry on. -/
def overwrite (s : MemoryStorage) (e : Entry) (es : List Entry) : Result MemoryStorage :=
  let offset := sub64 e.index s.dummy.index
  if s.entries.length > offset then
    .ok { s with
      entries := s.entries.take offset ++ e :: es
      entries_ne_nil := List.append_ne_nil_of_right_ne_nil _ (List.cons_ne_nil _ _) }
  else if s.entries.length = offset then
    .ok { s with
      entries := s.entries ++ e :: es
      entries_ne_nil := List.append_ne_nil_of_right_ne_nil _ (List.cons_ne_nil _ _) }
  else .error .storageMissingEntry

/-- `append`. -/
def append (s : MemoryStorage) (entries : List Entry) : Result MemoryStorage :=
  match entries with
  | [] => .ok s
  | e :: _ =>
    let first := s.firstIndex
    let last := e.index + entries.length - 1
    if last < first then .ok s
    else
      -- `n` is zero unless the first entries are compacted already.
      match entries.drop (first - e.index) with
      | [] => .error .outOfRange
      | e' :: es => s.overwrite e' es

/-- `create_snapshot`. -/
def createSnapshot (s : MemoryStorage) (index : ℕ) (cs : Option ConfState) (data : Bytes) :
    Result (Status × Snapshot × MemoryStorage) := do
  if index ≤ s.snapshot.metadata.index then
    return (.invalidArgument "requested index is older than the existing snapshot", {}, s)
  else if index > s.lastIndex then .error .snapshotOutOfBound
  else
    let e ← elemAt s.entries (sub64 index s.dummy.index)
    let snapshot : Snapshot :=
      { data := data
        metadata :=
          { confState := cs.getD s.snapshot.metadata.confState, index := index, term := e.term } }
    return (.ok, snapshot, { s with snapshot := snapshot })

/-- `apply_snapshot`: the snapshot replaces everything. -/
def applySnapshot (s : MemoryStorage) (snapshot : Snapshot) : Status × MemoryStorage :=
  if s.snapshot.metadata.index ≥ snapshot.metadata.index then
    (.invalidArgument "requested index is older than the existing snapshot", s)
  else
    (.ok, { s with
      snapshot := snapshot
      entries := [{ term := snapshot.metadata.term, index := snapshot.metadata.index }]
      entries_ne_nil := List.cons_ne_nil _ _ })

end MemoryStorage

end RaftCpp
