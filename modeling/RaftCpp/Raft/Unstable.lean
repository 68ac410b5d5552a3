import RaftCpp.Raft.Proto

/-!
# The unstable part of the log

`Unstable` of `raft-kv/raft/unstable.h` and `raft-kv/raft/unstable.cpp`: the snapshot and the entries
that are not persisted yet. The entry at position `i` has the log index `i + offset`.
-/

namespace RaftCpp

/-- The snapshot and the entries that are not persisted yet. -/
structure Unstable where
  /-- The incoming snapshot, if any. -/
  snapshot : Option Snapshot := none
  /-- The entries. -/
  entries : List Entry := []
  /-- The log index of the first entry. -/
  offset : ℕ

namespace Unstable

/-- `maybe_first_index`. -/
def maybeFirstIndex (u : Unstable) : Option ℕ := u.snapshot.map (·.metadata.index + 1)

/-- `maybe_last_index`. -/
def maybeLastIndex (u : Unstable) : Option ℕ :=
  if u.entries.length ≠ 0 then some (u.offset + u.entries.length - 1)
  else u.snapshot.map (·.metadata.index)

/-- `maybe_term`. At or above the offset, the index is looked up in the entries. -/
def maybeTerm (u : Unstable) (index : ℕ) : Option ℕ :=
  if index < u.offset then
    match u.snapshot with
    | none => none
    | some s => if s.metadata.index = index then some s.metadata.term else none
  else u.entries[index - u.offset]?.map (·.term)

/-- `stable_to`: forget the entries up to the index, if the term there is still the given one. -/
def stableTo (u : Unstable) (index term : ℕ) : Unstable :=
  if u.maybeTerm index = some term ∧ index ≥ u.offset then
    { u with entries := u.entries.drop (index + 1 - u.offset), offset := index + 1 }
  else u

/-- `stable_snap_to`: forget the snapshot, if it is the given one. -/
def stableSnapTo (u : Unstable) (index : ℕ) : Unstable :=
  if u.snapshot.map (·.metadata.index) = some index then { u with snapshot := none } else u

/-- `restore`. -/
def restore (snapshot : Snapshot) : Unstable :=
  { snapshot := some snapshot, entries := [], offset := snapshot.metadata.index + 1 }

/-- `slice`: the entries in `[low, high)`. -/
def slice (u : Unstable) (low high : ℕ) : Result (List Entry) :=
  if ¬ high > low then .error .assertion
  else if low < u.offset ∨ high > u.offset + u.entries.length then .error .unstableSliceOutOfBound
  else .ok ((u.entries.drop (low - u.offset)).take (high - low))

/-- `truncate_and_append`: overwrite the log from the first new entry on. -/
def truncateAndAppend (u : Unstable) (entries : List Entry) : Result Unstable := do
  match entries with
  | [] => return u
  | e :: _ =>
    let after := e.index
    if after = u.offset + u.entries.length then
      return { u with entries := u.entries ++ entries }
    else if after ≤ u.offset then
      return { u with offset := after, entries := entries }
    else
      let kept ← u.slice u.offset after
      return { u with entries := kept ++ entries }

end Unstable

end RaftCpp
