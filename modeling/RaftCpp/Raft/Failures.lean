import RaftCpp.Raft.Host

/-!
# Failures below the handlers

The handlers of the messages check some things themselves: that a node has its own progress, that a voter does
not become a learner, that a window is not full, that the state of a progress is known. The log, the storage
and the reads do not fail in these ways.
-/

namespace RaftCpp

open Outcome

/-- The failures of the handlers. -/
@[simp] def Fatal.ofHandlers : Fatal → Bool
  | .ownProgressMissing | .voterToLearner _ | .fullInflights | .unhandledProgressState | .outOfFuel => true
  | _ => false

/-- Another failure. -/
def Fatal.Below (e : Fatal) : Prop := e.ofHandlers = false

/-- That can be evaluated. -/
@[simp] theorem Fatal.below_iff (e : Fatal) : e.Below ↔ e.ofHandlers = false := Iff.rfl

/-- The computation fails in none of these ways. -/
abbrev FailsBelow {α : Type} (x : Result α) : Prop := FailsOnly Fatal.Below x

/-- It avoids each of them. -/
theorem failsBelow_avoids {α : Type} {x : Result α} {e : Fatal} (h : FailsBelow x)
    (he : e.ofHandlers = true) : Avoids e x :=
  h.avoids fun hbelow => Bool.noConfusion (he.symm.trans hbelow)

/-- Reading an element. -/
@[simp] theorem failsBelow_elemAt {α : Type} (xs : List α) (k : ℕ) : FailsBelow (elemAt xs k) := by
  unfold elemAt
  split <;> simp

/-- The name of a message type. -/
@[simp] theorem failsBelow_msgTypeToString (t : MessageType) : FailsBelow (msgTypeToString t) := by
  unfold msgTypeToString
  split <;> simp

/-- The type of the answer to a request for a vote. -/
@[simp] theorem failsBelow_voteRespMsgType (t : MessageType) : FailsBelow (voteRespMsgType t) := by
  unfold voteRespMsgType
  split <;> simp

/-- The context of a read request. -/
@[simp] theorem failsBelow_readCtx (m : Message) : FailsBelow m.readCtx := by
  unfold Message.readCtx
  simp

/-! ## The log -/

namespace MemoryStorage

variable (s : MemoryStorage)

/-- `entries`. -/
@[simp] theorem failsBelow_entriesIn (low high maxSize : ℕ) : FailsBelow (s.entriesIn low high maxSize) := by
  unfold entriesIn
  simp

/-- `compact`. -/
@[simp] theorem failsBelow_compact (index : ℕ) : FailsBelow (s.compact index) := by
  unfold compact
  simp

/-- `append`. -/
@[simp] theorem failsBelow_append (es : List Entry) : FailsBelow (s.append es) := by
  unfold append
  split
  · simp
  · dsimp only
    simp only [failsOnly_ite, failsOnly_ok, implies_true, true_and]
    intro _
    split
    · simp
    · unfold overwrite
      simp

/-- `create_snapshot`. -/
@[simp] theorem failsBelow_createSnapshot (index : ℕ) (cs : Option ConfState) (data : Bytes) :
    FailsBelow (s.createSnapshot index cs data) := by
  unfold createSnapshot
  simp

end MemoryStorage

namespace Unstable

variable (u : Unstable)

/-- `slice`. -/
@[simp] theorem failsBelow_slice (low high : ℕ) : FailsBelow (u.slice low high) := by
  unfold slice
  simp

/-- `truncate_and_append`. -/
@[simp] theorem failsBelow_truncateAndAppend (es : List Entry) : FailsBelow (u.truncateAndAppend es) := by
  unfold truncateAndAppend
  split <;> simp

end Unstable

namespace RaftLog

variable (l : RaftLog)

/-- `slice`. -/
@[simp] theorem failsBelow_slice (low high maxSize : ℕ) : FailsBelow (l.slice low high maxSize) := by
  unfold slice mustCheckOutOfBounds sliceUnstable
  simp

/-- `entries`. -/
@[simp] theorem failsBelow_entries (index maxSize : ℕ) : FailsBelow (l.entries index maxSize) := by
  unfold entries
  simp

/-- `commit_to`. -/
@[simp] theorem failsBelow_commitTo (k : ℕ) : FailsBelow (l.commitTo k) := by
  unfold commitTo
  simp

/-- `append`. -/
@[simp] theorem failsBelow_append (es : List Entry) : FailsBelow (l.append es) := by
  unfold append
  split <;> simp

/-- `maybe_append`. -/
@[simp] theorem failsBelow_maybeAppend (index logTerm committed : ℕ) (es : List Entry) :
    FailsBelow (l.maybeAppend index logTerm committed es) := by
  unfold maybeAppend appendFrom
  simp

/-- `maybe_commit`. -/
@[simp] theorem failsBelow_maybeCommit (index term : ℕ) : FailsBelow (l.maybeCommit index term) := by
  unfold maybeCommit
  cases l.term index <;> simp

/-- `next_entries`. -/
@[simp] theorem failsBelow_nextEntries : FailsBelow l.nextEntries := by
  unfold nextEntries
  simp

end RaftLog

/-! ## Progress and reads -/

namespace InFlights

variable (f : InFlights)

/-- The loop of `free_to`. -/
@[simp] theorem failsBelow_freeLoop (upTo : ℕ) :
    ∀ left i idx, FailsBelow (f.freeLoop upTo left i idx)
  | 0, _, _ => failsOnly_ok _
  | left + 1, i, idx => by
    unfold freeLoop
    split
    · simp
    · simp [failsBelow_freeLoop upTo left]

/-- `free_to`. -/
@[simp] theorem failsBelow_freeTo (upTo : ℕ) : FailsBelow (f.freeTo upTo) := by
  unfold freeTo
  simp

/-- `free_first_one`. -/
@[simp] theorem failsBelow_freeFirstOne : FailsBelow f.freeFirstOne := by
  unfold freeFirstOne
  simp

end InFlights

namespace ReadOnly

variable (ro : ReadOnly)

/-- `add_request`. -/
@[simp] theorem failsBelow_addRequest (index : ℕ) (m : Message) : FailsBelow (ro.addRequest index m) := by
  unfold addRequest
  simp only [failsOnly_bind, failsBelow_readCtx, true_and]
  intro ctx _
  cases ro.pendingReadIndex.lookup ctx <;> simp

/-- The loop of `advance`. -/
@[simp] theorem failsBelow_advanceLoop (ctx : Bytes) : ∀ queue, FailsBelow (ro.advanceLoop ctx queue)
  | [] => failsOnly_ok _
  | okctx :: rest => by
    unfold advanceLoop
    cases ro.pendingReadIndex.lookup okctx <;> simp [failsBelow_advanceLoop ctx rest]

/-- `advance`. -/
@[simp] theorem failsBelow_advance (m : Message) : FailsBelow (ro.advance m) := by
  unfold advance
  simp

end ReadOnly

/-! ## Handlers -/

namespace Raft

variable (r : Raft)

/-- `send`. -/
@[simp] theorem failsBelow_send (m : Message) : FailsBelow (r.send m) := by
  unfold send
  simp

/-- The progress behind a pointer. -/
@[simp] theorem failsBelow_peerProgress (id : ℕ) : FailsBelow (r.peerProgress id) := by
  unfold peerProgress
  split <;> simp

/-- `send_heartbeat`. -/
@[simp] theorem failsBelow_sendHeartbeat (peer : ℕ) (ctx : Bytes) :
    FailsBelow (r.sendHeartbeat peer ctx) := by
  unfold sendHeartbeat
  simp

/-- `send_timeout_now`. -/
@[simp] theorem failsBelow_sendTimeoutNow (peer : ℕ) : FailsBelow (r.sendTimeoutNow peer) := by
  unfold sendTimeoutNow
  simp

/-- `bcast_heartbeat_with_ctx`. -/
@[simp] theorem failsBelow_bcastHeartbeatWithCtx (ctx : Bytes) :
    FailsBelow (r.bcastHeartbeatWithCtx ctx) := by
  unfold bcastHeartbeatWithCtx
  simp

/-- `maybe_commit`. -/
@[simp] theorem failsBelow_maybeCommit : FailsBelow r.maybeCommit := by
  unfold maybeCommit
  simp

/-- `append_entry`. -/
@[simp] theorem failsBelow_appendEntry (es : List Entry) : FailsBelow (r.appendEntry es) := by
  unfold appendEntry
  dsimp only
  split <;> simp

/-- The answer to a read request. -/
@[simp] theorem failsBelow_answerRead (req : Message) (index : ℕ) : FailsBelow (r.answerRead req index) := by
  unfold answerRead
  simp

/-- The acknowledgement of a read. -/
@[simp] theorem failsBelow_ackRead (m : Message) : FailsBelow (r.ackRead m) := by
  unfold ackRead
  simp

/-- `step_leader` on a read request. -/
@[simp] theorem failsBelow_stepLeaderReadIndex (m : Message) : FailsBelow (r.stepLeaderReadIndex m) := by
  unfold stepLeaderReadIndex
  cases r.raftLog.term r.raftLog.committed with
  | error _ => simp
  | ok t => cases r.readOnly.option <;> simp

/-- `step` on a request for a vote. -/
@[simp] theorem failsBelow_stepVote (m : Message) : FailsBelow (r.stepVote m) := by
  unfold stepVote
  simp

/-- `step` on a message of a lower term. -/
@[simp] theorem failsBelow_stepLowerTerm (m : Message) : FailsBelow (r.stepLowerTerm m) := by
  unfold stepLowerTerm
  simp

end Raft

/-! ## Failures beside the membership -/

/-- The failures that are about the members. -/
@[simp] def Fatal.ofMembers : Fatal → Bool
  | .ownProgressMissing | .voterToLearner _ => true
  | _ => false

/-- Another failure. -/
def Fatal.Beside (e : Fatal) : Prop := e.ofMembers = false

/-- That can be evaluated. -/
@[simp] theorem Fatal.beside_iff (e : Fatal) : e.Beside ↔ e.ofMembers = false := Iff.rfl

/-- The computation fails in none of these ways. -/
abbrev FailsBeside {α : Type} (x : Result α) : Prop := FailsOnly Fatal.Beside x

/-- It avoids each of them. -/
theorem failsBeside_avoids {α : Type} {x : Result α} {e : Fatal} (h : FailsBeside x)
    (he : e.ofMembers = true) : Avoids e x :=
  h.avoids fun hbeside => Bool.noConfusion (he.symm.trans hbeside)

/-- What does not fail as a handler does not fail so either. -/
theorem failsBelow_beside {α : Type} {x : Result α} (h : FailsBelow x) : FailsBeside x :=
  h.mono fun e he => by
    unfold Fatal.Below at he
    unfold Fatal.Beside
    cases e <;> first | rfl | cases he

/-- `add`. -/
@[simp] theorem InFlights.failsBeside_add (f : InFlights) (inflight : ℕ) : FailsBeside (f.add inflight) := by
  unfold add
  simp

namespace Raft

variable (r : Raft)

/-- The append message. -/
@[simp] theorem failsBeside_prepareAppend (peer : ℕ) (pr : Progress) (term : ℕ) (es : List Entry) :
    FailsBeside (r.prepareAppend peer pr term es) := by
  unfold prepareAppend
  cases es.getLast? with
  | none => simp
  | some e => cases pr.state <;> simp

/-- `maybe_send_append`. -/
@[simp] theorem failsBeside_maybeSendAppend (peer : ℕ) (sendIfEmpty : Bool) :
    FailsBeside (r.maybeSendAppend peer sendIfEmpty) := by
  have hsend : ∀ r₁ x, FailsBeside (Raft.send r₁ x) := fun r₁ x => failsBelow_beside (r₁.failsBelow_send x)
  unfold maybeSendAppend prepareSnapshot
  simp only [failsOnly_bind, failsBelow_beside (r.failsBelow_peerProgress peer), failsOnly_ite, failsOnly_pure,
    failsBelow_beside (r.raftLog.failsBelow_entries _ _), true_and, implies_true]
  intro pr _ _ p _ _
  split <;> simp [hsend]

/-- `send_append`. -/
@[simp] theorem failsBeside_sendAppend (peer : ℕ) : FailsBeside (r.sendAppend peer) := by
  unfold sendAppend
  simp

/-- The loop of `maybe_send_append`. -/
@[simp] theorem failsBeside_sendAppendLoop (peer : ℕ) :
    ∀ fuel r, FailsBeside (sendAppendLoop peer fuel r)
  | 0, _ => by simp [sendAppendLoop]
  | fuel + 1, r => by
    unfold sendAppendLoop
    simp [failsBeside_sendAppendLoop peer fuel]

/-- `bcast_append`. -/
@[simp] theorem failsBeside_bcastAppend : FailsBeside r.bcastAppend := by
  unfold bcastAppend
  simp

/-- `remove_node`. -/
@[simp] theorem failsBeside_removeNode (id : ℕ) : FailsBeside (r.removeNode id) := by
  unfold removeNode
  simp [failsBelow_beside (Raft.failsBelow_maybeCommit _)]

end Raft

end RaftCpp
