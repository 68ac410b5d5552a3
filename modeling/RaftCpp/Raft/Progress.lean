import RaftCpp.Raft.Proto

/-!
# The leader's view of a peer

`InFlights` and `Progress` of `raft-kv/raft/progress.h` and `raft-kv/raft/progress.cpp`.
-/

namespace RaftCpp

/-- `ProgressState`. -/
inductive ProgressState
  | probe
  | replicate
  | snapshot
deriving DecidableEq, Repr

/-- The window of append messages on their way to a peer: a ring buffer of the index of the last
entry of each. -/
structure InFlights where
  /-- The position of the first message. -/
  start : ℕ := 0
  /-- The number of messages. -/
  count : ℕ := 0
  /-- The size of the window. -/
  size : ℕ
  /-- The ring buffer, which grows on demand. -/
  buffer : List ℕ := []
deriving DecidableEq, Repr

namespace InFlights

/-- The constructor keeps the low 32 bits of the size. -/
def new (maxInflightMsgs : ℕ) : InFlights := { size := maxInflightMsgs % 2^32 }

/-- `reset`. -/
def reset (f : InFlights) : InFlights := { f with start := 0, count := 0 }

/-- `is_full`. -/
def isFull (f : InFlights) : Bool := f.size == f.count

/-- The buffer that `add` writes into at the position `next`. -/
def grown (f : InFlights) (next : ℕ) : List ℕ :=
  if next ≥ f.buffer.length then
    let newSize := f.buffer.length * 2 % 2^32
    let newSize := if newSize = 0 then 1 else if newSize > f.size then f.size else newSize
    f.buffer.take newSize ++ List.replicate (newSize - f.buffer.length) 0
  else f.buffer

/-- `add`. -/
def add (f : InFlights) (inflight : ℕ) : Result InFlights :=
  if f.isFull then .error .fullInflights
  else
    let next := (f.start + f.count) % 2^32
    let next := if next ≥ f.size then next - f.size else next
    let buffer := f.grown next
    if next < buffer.length then
      .ok { f with buffer := buffer.set next inflight, count := f.count + 1 }
    else .error .outOfRange

/-- The loop of `free_to` over the messages that are left: the number of messages to free and the
position after them. -/
def freeLoop (f : InFlights) (upTo : ℕ) : ℕ → ℕ → ℕ → Result (ℕ × ℕ)
  | 0, i, idx => .ok (i, idx)
  | left + 1, i, idx =>
    match f.buffer[idx]? with
    | none => .error .outOfRange
    | some x =>
      if upTo < x then .ok (i, idx)
      else
        let idx := idx + 1
        f.freeLoop upTo left (i + 1) (if idx ≥ f.size then idx - f.size else idx)

/-- `free_to`: free the messages whose last index is at most the given one. -/
def freeTo (f : InFlights) (upTo : ℕ) : Result InFlights := do
  if f.count = 0 then return f
  else
    let x ← elemAt f.buffer f.start
    if upTo < x then return f
    else
      let (i, idx) ← f.freeLoop upTo f.count 0 f.start
      let count := f.count - i
      return { f with count := count, start := if count = 0 then 0 else idx }

/-- `free_first_one`. -/
def freeFirstOne (f : InFlights) : Result InFlights := do
  let x ← elemAt f.buffer f.start
  f.freeTo x

end InFlights

/-- What a leader knows of a peer's log. -/
structure Progress where
  /-- `match`: the highest index that the peer is known to hold. -/
  matched : ℕ := 0
  /-- The index of the next entry to send. -/
  next : ℕ := 0
  /-- How the leader sends entries to the peer. -/
  state : ProgressState := .probe
  /-- Whether a probe is on its way. -/
  paused : Bool := false
  /-- The index of the snapshot on its way, in the snapshot state. -/
  pendingSnapshot : ℕ := 0
  /-- Whether the peer was heard from since the last quorum check. -/
  recentActive : Bool := false
  /-- The append messages on their way. -/
  inflights : InFlights
  /-- Whether the peer is a learner. -/
  isLearner : Bool := false
deriving DecidableEq, Repr

namespace Progress

/-- The constructor. -/
def new (maxInflight : ℕ) : Progress := { inflights := InFlights.new maxInflight }

/-- `reset_state`. -/
def resetState (p : Progress) (st : ProgressState) : Progress :=
  { p with paused := false, pendingSnapshot := 0, state := st, inflights := p.inflights.reset }

/-- `become_replicate`. -/
def becomeReplicate (p : Progress) : Progress :=
  { p.resetState .replicate with next := p.matched + 1 }

/-- `become_probe`. After a snapshot, probing starts behind it. -/
def becomeProbe (p : Progress) : Progress :=
  if p.state = .snapshot then
    { p.resetState .probe with next := max (p.matched + 1) (p.pendingSnapshot + 1) }
  else { p.resetState .probe with next := p.matched + 1 }

/-- `become_snapshot`. -/
def becomeSnapshot (p : Progress) (snapshoti : ℕ) : Progress :=
  { p.resetState .snapshot with pendingSnapshot := snapshoti }

/-- `is_paused`. -/
def isPaused (p : Progress) : Bool :=
  match p.state with
  | .probe => p.paused
  | .replicate => p.inflights.isFull
  | .snapshot => true

/-- `set_pause`. -/
def setPause (p : Progress) : Progress := { p with paused := true }

/-- `resume`. -/
def resume (p : Progress) : Progress := { p with paused := false }

/-- `maybe_update`: whether the index is news, and the progress with it. -/
def maybeUpdate (p : Progress) (n : ℕ) : Bool × Progress :=
  let updated := p.matched < n
  let p := if p.matched < n then { p with matched := n, paused := false } else p
  let p := if p.next < n + 1 then { p with next := n + 1 } else p
  (updated, p)

/-- What `maybe_update` sets. -/
theorem maybeUpdate_spec (p : Progress) (n : ℕ) :
    (p.maybeUpdate n).2.matched = max p.matched n ∧ (p.maybeUpdate n).2.next = max p.next (n + 1) ∧
      (p.maybeUpdate n).2.state = p.state ∧ (p.maybeUpdate n).2.pendingSnapshot = p.pendingSnapshot := by
  unfold maybeUpdate
  by_cases hm : p.matched < n <;> by_cases hx : p.next < n + 1
  all_goals
    simp only [hm, hx, if_true, if_false, and_true]
    constructor <;> omega

/-- `optimistic_update`. -/
def optimisticUpdate (p : Progress) (n : ℕ) : Progress := { p with next := n + 1 }

/-- `maybe_decreases_to`: whether the refusal is news, and the progress with it. -/
def maybeDecreasesTo (p : Progress) (rejected last : ℕ) : Bool × Progress :=
  if p.state = .replicate then
    if rejected ≤ p.matched then (false, p)
    else (true, { p with next := p.matched + 1 })
  else if sub64 p.next 1 ≠ rejected then (false, p)
  else
    let next := min rejected (last + 1)
    (true, { p with next := if next < 1 then 1 else next, paused := false })

/-- `need_snapshot_abort`. -/
def needSnapshotAbort (p : Progress) : Bool :=
  p.state == .snapshot && p.matched ≥ p.pendingSnapshot

/-- `snapshot_failure`. -/
def snapshotFailure (p : Progress) : Progress := { p with pendingSnapshot := 0 }

end Progress

end RaftCpp
