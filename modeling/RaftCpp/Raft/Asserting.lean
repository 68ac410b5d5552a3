import RaftCpp.Raft.Failures

/-!
# Where the assertion of `become_leader` can fail

`become_leader` asserts that the node has its own progress. No other function fails in this way, so that
only the campaigns can, which call it.
-/

namespace RaftCpp

open Outcome

/-- The computation does not fail on the assertion. -/
abbrev Asserted {α : Type} (x : Result α) : Prop := Avoids Fatal.ownProgressMissing x

/-- The name of a message type. -/
@[simp] theorem asserted_msgTypeToString (t : MessageType) : Asserted (msgTypeToString t) :=
  failsBelow_avoids (by simp) rfl

/-- The type of the answer to a request for a vote. -/
@[simp] theorem asserted_voteRespMsgType (t : MessageType) : Asserted (voteRespMsgType t) :=
  failsBelow_avoids (by simp) rfl

/-- The context of a read request. -/
@[simp] theorem asserted_readCtx (m : Message) : Asserted m.readCtx := failsBelow_avoids (by simp) rfl

/-! ## The log -/

namespace MemoryStorage

variable (s : MemoryStorage)

/-- `compact`. -/
@[simp] theorem asserted_compact (index : ℕ) : Asserted (s.compact index) := failsBelow_avoids (by simp) rfl

/-- `append`. -/
@[simp] theorem asserted_append (es : List Entry) : Asserted (s.append es) :=
  failsBelow_avoids (by simp) rfl

/-- `create_snapshot`. -/
@[simp] theorem asserted_createSnapshot (index : ℕ) (cs : Option ConfState) (data : Bytes) :
    Asserted (s.createSnapshot index cs data) := failsBelow_avoids (by simp) rfl

end MemoryStorage

namespace RaftLog

variable (l : RaftLog)

/-- `slice`. -/
@[simp] theorem asserted_slice (low high maxSize : ℕ) : Asserted (l.slice low high maxSize) :=
  failsBelow_avoids (by simp) rfl

/-- `entries`. -/
@[simp] theorem asserted_entries (index maxSize : ℕ) : Asserted (l.entries index maxSize) :=
  failsBelow_avoids (by simp) rfl

/-- `commit_to`. -/
@[simp] theorem asserted_commitTo (k : ℕ) : Asserted (l.commitTo k) := failsBelow_avoids (by simp) rfl

/-- `append`. -/
@[simp] theorem asserted_append (es : List Entry) : Asserted (l.append es) :=
  failsBelow_avoids (by simp) rfl

/-- `maybe_append`. -/
@[simp] theorem asserted_maybeAppend (index logTerm committed : ℕ) (es : List Entry) :
    Asserted (l.maybeAppend index logTerm committed es) := failsBelow_avoids (by simp) rfl

/-- `maybe_commit`. -/
@[simp] theorem asserted_maybeCommit (index term : ℕ) : Asserted (l.maybeCommit index term) :=
  failsBelow_avoids (by simp) rfl

/-- `next_entries`. -/
@[simp] theorem asserted_nextEntries : Asserted l.nextEntries := failsBelow_avoids (by simp) rfl

end RaftLog

/-! ## Progress and reads -/

namespace InFlights

variable (f : InFlights)

/-- `add`. -/
@[simp] theorem asserted_add (inflight : ℕ) : Asserted (f.add inflight) := failsBeside_avoids (by simp) rfl

/-- `free_to`. -/
@[simp] theorem asserted_freeTo (upTo : ℕ) : Asserted (f.freeTo upTo) := failsBelow_avoids (by simp) rfl

/-- `free_first_one`. -/
@[simp] theorem asserted_freeFirstOne : Asserted f.freeFirstOne := failsBelow_avoids (by simp) rfl

end InFlights

namespace ReadOnly

variable (ro : ReadOnly)

/-- `add_request`. -/
@[simp] theorem asserted_addRequest (index : ℕ) (m : Message) : Asserted (ro.addRequest index m) :=
  failsBelow_avoids (by simp) rfl

/-- `advance`. -/
@[simp] theorem asserted_advance (m : Message) : Asserted (ro.advance m) := failsBelow_avoids (by simp) rfl

end ReadOnly

/-! ## Handlers -/

namespace Raft

variable (r : Raft)

/-- `send`. -/
@[simp] theorem asserted_send (m : Message) : Asserted (r.send m) := failsBelow_avoids (by simp) rfl

/-- The progress behind a pointer. -/
@[simp] theorem asserted_peerProgress (id : ℕ) : Asserted (r.peerProgress id) :=
  failsBelow_avoids (by simp) rfl

/-- `set_progress`. -/
@[simp] theorem asserted_setProgress (id matched next : ℕ) (isLearner : Bool) :
    Asserted (r.setProgress id matched next isLearner) := by
  unfold setProgress
  simp

/-- `restore_node`. -/
@[simp] theorem asserted_restoreNode (nodes : List ℕ) (isLearner : Bool) :
    Asserted (r.restoreNode nodes isLearner) := by
  unfold restoreNode
  simp

/-- The append message. -/
@[simp] theorem asserted_prepareAppend (peer : ℕ) (pr : Progress) (term : ℕ) (es : List Entry) :
    Asserted (r.prepareAppend peer pr term es) := failsBeside_avoids (by simp) rfl

/-- `maybe_send_append`. -/
@[simp] theorem asserted_maybeSendAppend (peer : ℕ) (sendIfEmpty : Bool) :
    Asserted (r.maybeSendAppend peer sendIfEmpty) := failsBeside_avoids (by simp) rfl

/-- `send_append`. -/
@[simp] theorem asserted_sendAppend (peer : ℕ) : Asserted (r.sendAppend peer) :=
  failsBeside_avoids (by simp) rfl

/-- The loop of `maybe_send_append`. -/
@[simp] theorem asserted_sendAppendLoop (peer fuel : ℕ) : Asserted (sendAppendLoop peer fuel r) :=
  failsBeside_avoids (by simp) rfl

/-- `send_heartbeat`. -/
@[simp] theorem asserted_sendHeartbeat (peer : ℕ) (ctx : Bytes) : Asserted (r.sendHeartbeat peer ctx) := by
  unfold sendHeartbeat
  simp

/-- `send_timeout_now`. -/
@[simp] theorem asserted_sendTimeoutNow (peer : ℕ) : Asserted (r.sendTimeoutNow peer) :=
  failsBelow_avoids (by simp) rfl

/-- `bcast_append`. -/
@[simp] theorem asserted_bcastAppend : Asserted r.bcastAppend := failsBeside_avoids (by simp) rfl

/-- `bcast_heartbeat_with_ctx`. -/
@[simp] theorem asserted_bcastHeartbeatWithCtx (ctx : Bytes) :
    Asserted (r.bcastHeartbeatWithCtx ctx) := failsBelow_avoids (by simp) rfl

/-- `maybe_commit`. -/
@[simp] theorem asserted_maybeCommit : Asserted r.maybeCommit := failsBelow_avoids (by simp) rfl

/-- `append_entry`. -/
@[simp] theorem asserted_appendEntry (es : List Entry) : Asserted (r.appendEntry es) :=
  failsBelow_avoids (by simp) rfl

/-- The requests for votes. -/
@[simp] theorem asserted_requestVotes (voteMsg : MessageType) (term : ℕ) (ctx : Bytes) :
    Asserted (r.requestVotes voteMsg term ctx) := by
  unfold requestVotes
  simp

/-- `handle_append_entries`. -/
@[simp] theorem asserted_handleAppendEntries (m : Message) : Asserted (r.handleAppendEntries m) := by
  unfold handleAppendEntries
  simp only [avoids_ite, asserted_send, avoids_bind, RaftLog.asserted_maybeAppend,
    true_and, implies_true]
  intro _ p _
  split <;> simp

/-- `handle_heartbeat`. -/
@[simp] theorem asserted_handleHeartbeat (m : Message) : Asserted (r.handleHeartbeat m) := by
  unfold handleHeartbeat
  simp

/-- `handle_snapshot`. -/
@[simp] theorem asserted_handleSnapshot (m : Message) : Asserted (r.handleSnapshot m) := by
  unfold handleSnapshot restore
  simp

/-- The answer to a read request. -/
@[simp] theorem asserted_answerRead (req : Message) (index : ℕ) : Asserted (r.answerRead req index) :=
  failsBelow_avoids (by simp) rfl

/-- The acknowledgement of a read. -/
@[simp] theorem asserted_ackRead (m : Message) : Asserted (r.ackRead m) := failsBelow_avoids (by simp) rfl

/-- `step_leader` on a proposal. -/
@[simp] theorem asserted_stepLeaderProp (m : Message) : Asserted (r.stepLeaderProp m) := by
  unfold stepLeaderProp
  simp

/-- `step_leader` on a read request. -/
@[simp] theorem asserted_stepLeaderReadIndex (m : Message) : Asserted (r.stepLeaderReadIndex m) :=
  failsBelow_avoids (by simp) rfl

/-- What the leader does after an acknowledgement that was news. -/
@[simp] theorem asserted_sendOnAck (peer : ℕ) (oldPaused : Bool) :
    Asserted (r.sendOnAck peer oldPaused) := by
  unfold sendOnAck commitOnAck
  simp

/-- `step_leader` on the answer to an append. -/
@[simp] theorem asserted_stepLeaderAppResp (m : Message) (pr : Progress) :
    Asserted (r.stepLeaderAppResp m pr) := by
  have hack : ∀ p : Progress, Asserted (progressOnAck p m.index) := fun p => by
    unfold progressOnAck
    split <;> simp
  unfold stepLeaderAppResp
  simp [hack]

/-- `step_leader` on the answer to a heartbeat. -/
@[simp] theorem asserted_stepLeaderHeartbeatResp (m : Message) (pr : Progress) :
    Asserted (r.stepLeaderHeartbeatResp m pr) := by
  unfold stepLeaderHeartbeatResp progressOnHeartbeat
  simp

/-- `step_leader` on a request to transfer the leadership. -/
@[simp] theorem asserted_stepLeaderTransfer (m : Message) (pr : Progress) :
    Asserted (r.stepLeaderTransfer m pr) := by
  unfold stepLeaderTransfer startTransfer
  simp

/-- `step_leader`. -/
@[simp] theorem asserted_stepLeader (m : Message) : Asserted (r.stepLeader m) := by
  have hpeer : Asserted (r.stepLeaderPeer m) := by
    unfold stepLeaderPeer
    cases r.getProgress m.fromId with
    | none => simp
    | some pr => cases m.type <;> simp
  unfold stepLeader bcastHeartbeat
  cases m.type <;> simp [hpeer]

/-- `step` on a request for a vote. -/
@[simp] theorem asserted_stepVote (m : Message) : Asserted (r.stepVote m) := failsBelow_avoids (by simp) rfl

/-- `step` on a message of a lower term. -/
@[simp] theorem asserted_stepLowerTerm (m : Message) : Asserted (r.stepLowerTerm m) :=
  failsBelow_avoids (by simp) rfl

/-- `apply_conf_change`. -/
@[simp] theorem asserted_addNodeOrLearner (id : ℕ) (isLearner : Bool) :
    Asserted (r.addNodeOrLearner id isLearner) := by
  unfold addNodeOrLearner markActive
  cases r.getProgress id <;> simp

/-- `remove_node`. -/
@[simp] theorem asserted_removeNode (id : ℕ) : Asserted (r.removeNode id) := failsBeside_avoids (by simp) rfl

end Raft

/-! ## The application's interface -/

namespace RawNode

variable (n : RawNode)

/-- `ready`. -/
@[simp] theorem asserted_ready : Asserted n.ready := by
  unfold ready Ready.new
  simp

/-- `apply_conf_change`. -/
@[simp] theorem asserted_applyConfChange (cc : ConfChange) : Asserted (n.applyConfChange cc) := by
  unfold applyConfChange
  simp

end RawNode

end RaftCpp
