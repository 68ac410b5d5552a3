import RaftCpp.Raft.Storage
import RaftCpp.Raft.Unstable

/-!
# The log of a node

`RaftLog` of `raft-kv/raft/raft_log.h` and `raft-kv/raft/raft_log.cpp`: the storage, the unstable
part that overrides it, and the commit and apply cursors.
-/

namespace RaftCpp

/-- The log of a node. -/
structure RaftLog where
  /-- The persisted part. -/
  storage : MemoryStorage
  /-- The part that is not persisted yet. -/
  unstable : Unstable
  /-- The highest index known to be committed. -/
  committed : ℕ
  /-- The highest index that the application was told to apply. -/
  applied : ℕ
  /-- The limit on the size of the entries handed out for application at once. -/
  maxNextEntsSize : ℕ

namespace RaftLog

/-- `RaftLog::unlimited`. -/
def unlimited : ℕ := 2^64 - 1

/-- The constructor: the cursors start at the last compaction. -/
def new (storage : MemoryStorage) (maxNextEntsSize : ℕ) : RaftLog :=
  { storage := storage
    unstable := { offset := storage.lastIndex + 1 }
    committed := storage.firstIndex - 1
    applied := storage.firstIndex - 1
    maxNextEntsSize := maxNextEntsSize }

/-- `first_index`. -/
def firstIndex (l : RaftLog) : ℕ := l.unstable.maybeFirstIndex.getD l.storage.firstIndex

/-- `last_index`. -/
def lastIndex (l : RaftLog) : ℕ := l.unstable.maybeLastIndex.getD l.storage.lastIndex

/-- `term`. Outside of the log the term is zero. -/
def term (l : RaftLog) (index : ℕ) : Except Status ℕ :=
  let dummyIndex := l.firstIndex - 1
  if index < dummyIndex ∨ index > l.lastIndex then .ok 0
  else
    match l.unstable.maybeTerm index with
    | some t => .ok t
    | none => l.storage.term index

/-- `last_term`. -/
def lastTerm (l : RaftLog) : ℕ :=
  match l.term l.lastIndex with
  | .ok t => t
  | .error _ => 0

/-- `match_term`. -/
def matchTerm (l : RaftLog) (index t : ℕ) : Bool :=
  match l.term index with
  | .ok t' => t == t'
  | .error _ => false

/-- `is_up_to_date`: whether a log with the given last index and term is at least as up to date. -/
def isUpToDate (l : RaftLog) (lasti term : ℕ) : Bool :=
  term > l.lastTerm || (term == l.lastTerm && lasti ≥ l.lastIndex)

/-- `must_check_out_of_bounds`. -/
def mustCheckOutOfBounds (l : RaftLog) (low high : ℕ) : Result Status :=
  if ¬ high ≥ low then .error .assertion
  else if low < l.firstIndex then .ok MemoryStorage.errCompacted
  else if high > l.firstIndex + sub64 (l.lastIndex + 1) l.firstIndex then .error .sliceOutOfBound
  else .ok .ok

/-- The part of `slice` above the unstable offset, after the storage gave `stable`. -/
def sliceUnstable (l : RaftLog) (low high maxSize : ℕ) (stable : List Entry) :
    Result (Status × List Entry) := do
  if high > l.unstable.offset then
    let es ← l.unstable.slice (max low l.unstable.offset) high
    return (.ok, entryLimitSize maxSize (stable ++ es))
  else return (.ok, entryLimitSize maxSize stable)

/-- `slice`: the entries in `[low, high)`, up to the size limit. -/
def slice (l : RaftLog) (low high maxSize : ℕ) : Result (Status × List Entry) := do
  let status ← l.mustCheckOutOfBounds low high
  if ¬ status.isOk then return (status, [])
  else if low = high then return (.ok, [])
  else if low < l.unstable.offset then
    let (status, es) ← l.storage.entriesIn low (min high l.unstable.offset) maxSize
    if ¬ status.isOk then return (status, es)
    -- The storage reached the size limit.
    else if es.length < min high l.unstable.offset - low then return (.ok, es)
    else l.sliceUnstable low high maxSize es
  else l.sliceUnstable low high maxSize []

/-- `entries`: the entries from the index on, up to the size limit. -/
def entries (l : RaftLog) (index maxSize : ℕ) : Result (Status × List Entry) :=
  if index > l.lastIndex then .ok (.ok, [])
  else l.slice index (l.lastIndex + 1) maxSize

/-- `commit_to`. -/
def commitTo (l : RaftLog) (toCommit : ℕ) : Result RaftLog :=
  if l.committed < toCommit then
    if l.lastIndex < toCommit then .error (.commitToOutOfRange toCommit l.lastIndex)
    else .ok { l with committed := toCommit }
  else .ok l

/-- `append`. -/
def append (l : RaftLog) (entries : List Entry) : Result RaftLog := do
  match entries with
  | [] => return l
  | e :: _ =>
    let after := sub64 e.index 1
    if after < l.committed then .error (.appendOutOfRange after l.committed)
    else
      let unstable ← l.unstable.truncateAndAppend entries
      return { l with unstable := unstable }

/-- `find_conflict`: the index of the first entry that the log does not hold, or zero. -/
def findConflict (l : RaftLog) : List Entry → ℕ
  | [] => 0
  | e :: es => if l.matchTerm e.index e.term then l.findConflict es else e.index

/-- The part of `maybe_append` that writes the entries, past the match at `index`. It erases the first
`n` entries; with less of them, the range that it erases is outside of the vector. -/
def appendFrom (l : RaftLog) (index : ℕ) (entries : List Entry) : Result RaftLog :=
  let ci := l.findConflict entries
  let n := sub64 ci (index + 1)
  if ci = 0 then .ok l
  else if ci ≤ l.committed then .error (.conflictWithCommitted ci l.committed)
  else if entries.length < n then .error .outOfRange
  else l.append (entries.drop n)

/-- `maybe_append`: the last new index if the log holds `logTerm` at `index`. -/
def maybeAppend (l : RaftLog) (index logTerm committed : ℕ) (entries : List Entry) :
    Result (Option ℕ × RaftLog) := do
  if l.matchTerm index logTerm then
    let lastnewi := index + entries.length
    let l ← l.appendFrom index entries
    let l ← l.commitTo (min committed lastnewi)
    return (some lastnewi, l)
  else return (none, l)

/-- `maybe_commit`. -/
def maybeCommit (l : RaftLog) (maxIndex term : ℕ) : Result (Bool × RaftLog) := do
  if maxIndex > l.committed then
    match l.term maxIndex with
    | .error _ => .error .outOfRange
    | .ok t =>
      if t = term then
        let l ← l.commitTo maxIndex
        return (true, l)
      else return (false, l)
  else return (false, l)

/-- `next_entries`: the committed entries that are not applied yet, up to the size limit. -/
def nextEntries (l : RaftLog) : Result (List Entry) := do
  let off := max (l.applied + 1) l.firstIndex
  if l.committed + 1 > off then
    let (status, es) ← l.slice off (l.committed + 1) l.maxNextEntsSize
    if status.isOk then return es else .error .nextEntries
  else return []

/-- `has_next_entries`. -/
def hasNextEntries (l : RaftLog) : Bool :=
  l.committed + 1 > max (l.applied + 1) l.firstIndex

/-- `restore`. -/
def restore (l : RaftLog) (snapshot : Snapshot) : RaftLog :=
  { l with committed := snapshot.metadata.index, unstable := Unstable.restore snapshot }

/-- `snapshot`. -/
def snapshot (l : RaftLog) : Snapshot := l.unstable.snapshot.getD l.storage.snapshot

/-- `applied_to`. An index out of range is only logged. -/
def appliedTo (l : RaftLog) (index : ℕ) : RaftLog :=
  if index = 0 then l else { l with applied := index }

/-- `stable_to`. -/
def stableTo (l : RaftLog) (index term : ℕ) : RaftLog :=
  { l with unstable := l.unstable.stableTo index term }

/-- `stable_snap_to`. -/
def stableSnapTo (l : RaftLog) (index : ℕ) : RaftLog :=
  { l with unstable := l.unstable.stableSnapTo index }

end RaftLog

end RaftCpp
