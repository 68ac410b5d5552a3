import RaftCpp.Library.Outcome
import RaftCpp.Raft.Step

/-!
# The failures of a log

Some of the failures of a node contradict what the cluster agreed on. They are raised by the log only:
the functions below, which the handlers use as well, fail in other ways or not at all.
-/

namespace RaftCpp

open Outcome

/-- The failures that contradict what the cluster agreed on: a commit index or a new entry that does not
fit the log, and an access beyond its unstable part. -/
def Fatal.OfLog : Fatal → Prop
  | .commitToOutOfRange _ _ | .conflictWithCommitted _ _ | .appendOutOfRange _ _ |
    .unstableSliceOutOfBound => True
  | _ => False

/-- What a computation returns satisfies `P`, and it does not fail in one of these ways. -/
abbrev LogSafe {α : Type} (x : Result α) (P : α → Prop) : Prop := Secures Fatal.OfLog x P

/-- The element read is the one at the index. -/
theorem elemAt_spec {α : Type} (xs : List α) (k : ℕ) :
    LogSafe (elemAt xs k) fun x => xs[k]? = some x := by
  unfold elemAt
  split
  · next h => exact Secures.ok h
  · exact Secures.error id

/-- Reading an element is no access to a log. -/
theorem elemAt_safe {α : Type} (xs : List α) (k : ℕ) : LogSafe (elemAt xs k) fun _ => True :=
  (elemAt_spec xs k).mono fun _ _ => trivial

/-- The progress behind the pointer. -/
theorem Raft.peerProgress_spec (r : Raft) (y : ℕ) :
    LogSafe (r.peerProgress y) fun p => r.getProgress y = some p := by
  unfold peerProgress
  split
  · next h => exact Secures.ok h
  · exact Secures.error fun h => h

/-- The name of a message type is no access to a log. -/
theorem msgTypeToString_safe (t : MessageType) : LogSafe (msgTypeToString t) fun _ => True := by
  unfold msgTypeToString
  split
  · exact Secures.error id
  · exact Secures.ok trivial

namespace InFlights

/-- The loop of `free_to` is no access to a log. -/
theorem freeLoop_safe (f : InFlights) (upTo : ℕ) :
    ∀ left i idx, LogSafe (f.freeLoop upTo left i idx) fun _ => True
  | 0, _, _ => Secures.ok trivial
  | left + 1, i, idx => by
    unfold freeLoop
    split
    · exact Secures.error id
    · exact Secures.ite (fun _ => Secures.ok trivial) fun _ => f.freeLoop_safe upTo left _ _

/-- `free_to` is no access to a log. -/
theorem freeTo_safe (f : InFlights) (upTo : ℕ) : LogSafe (f.freeTo upTo) fun _ => True := by
  unfold freeTo
  apply Secures.ite
  · exact fun _ => Secures.pure trivial
  · intro _
    refine Secures.bind (elemAt_safe _ _) fun x _ => ?_
    apply Secures.ite
    · exact fun _ => Secures.pure trivial
    · exact fun _ => Secures.bind (f.freeLoop_safe _ _ _ _) fun _ _ => Secures.pure trivial

/-- `free_first_one` is no access to a log. -/
theorem freeFirstOne_safe (f : InFlights) : LogSafe f.freeFirstOne fun _ => True :=
  Secures.bind (elemAt_safe _ _) fun x _ => f.freeTo_safe x

/-- `add` is no access to a log. -/
theorem add_safe (f : InFlights) (inflight : ℕ) : LogSafe (f.add inflight) fun _ => True := by
  unfold add
  apply Secures.ite
  · exact fun _ => Secures.error id
  · intro _
    apply Secures.ite
    · exact fun _ => Secures.ok trivial
    · exact fun _ => Secures.error id

end InFlights

/-- Reading the context of a read request is no access to a log. -/
theorem Message.readCtx_safe (m : Message) : LogSafe m.readCtx fun _ => True :=
  Secures.bind (elemAt_safe _ _) fun _ _ => Secures.pure trivial

namespace ReadOnly

/-- `add_request` is no access to a log. -/
theorem addRequest_safe (ro : ReadOnly) (index : ℕ) (m : Message) :
    LogSafe (ro.addRequest index m) fun _ => True := by
  refine Secures.bind m.readCtx_safe fun ctx _ => ?_
  split
  · exact Secures.pure trivial
  · exact Secures.pure trivial

/-- The loop of `advance` is no access to a log. -/
theorem advanceLoop_safe (ro : ReadOnly) (ctx : Bytes) :
    ∀ queue, LogSafe (ro.advanceLoop ctx queue) fun _ => True
  | [] => Secures.ok trivial
  | okctx :: rest => by
    unfold advanceLoop
    split
    · exact Secures.error id
    · apply Secures.ite
      · exact fun _ => Secures.ok trivial
      · exact fun _ => Secures.bind (ro.advanceLoop_safe ctx rest) fun _ _ => Secures.pure trivial

/-- `advance` is no access to a log. -/
theorem advance_safe (ro : ReadOnly) (m : Message) : LogSafe (ro.advance m) fun _ => True := by
  refine Secures.bind (ro.advanceLoop_safe _ _) fun ⟨found, rss⟩ _ => ?_
  apply Secures.ite
  · intro _
    refine Secures.bind (P := fun _ => True) ?_ fun _ _ => Secures.pure trivial
    refine Secures.foldlM rss (fun pending rs _ _ => ?_) _ trivial
    exact Secures.bind rs.req.readCtx_safe fun _ _ => Secures.pure trivial
  · exact fun _ => Secures.pure trivial

end ReadOnly

end RaftCpp
