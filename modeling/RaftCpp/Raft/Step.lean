import RaftCpp.Raft.State

/-!
# The handlers of a node

`campaign`, `step` and its three variants by role, the handlers of the messages of a leader, and
`tick`, from `raft-kv/raft/raft.cpp`.
-/

namespace RaftCpp

/-- The kinds of a campaign: `kCampaignPreElection`, `kCampaignElection`, and
`kCampaignTransfer`. -/
inductive CampaignType
  | preElection
  | election
  | transfer
deriving DecidableEq, Repr

/-- The context that marks the vote requests of a leadership transfer, `"CampaignTransfer"`. -/
def kCampaignTransfer : Bytes :=
  [67, 97, 109, 112, 97, 105, 103, 110, 84, 114, 97, 110, 115, 102, 101, 114]

/-- `num_of_pending_conf`. -/
def numOfPendingConf (entries : List Entry) : ℕ := entries.countP (·.type == .entryConfChange)

namespace Raft

/-- The status of a proposal that is not accepted. -/
def proposalDropped : Status := .invalidArgument "raft proposal dropped"

/-! ## Campaigns -/

/-- The requests for votes that `campaign` sends to the other voters. -/
def requestVotes (r : Raft) (voteMsg : MessageType) (term : ℕ) (ctx : Bytes) : Result Raft :=
  r.prs.keys.foldlM (fun r id =>
    if id = r.id then .ok r
    else r.send { term := term, toId := id, type := voteMsg, index := r.raftLog.lastIndex,
                  logTerm := r.raftLog.lastTerm, context := ctx }) r

/-- `campaign` for the votes of the next term. -/
def campaignElection (r : Raft) (ctx : Bytes) : Result Raft := do
  let r ← r.becomeCandidate
  let (granted, r) := r.poll r.id true
  if r.quorum = granted then r.becomeLeader
  else r.requestVotes .msgVote r.term ctx

/-- `campaign` for pre-votes: the requests are for the next term, which the node does not enter. -/
def campaignPreElection (r : Raft) : Result Raft := do
  let r ← r.becomePreCandidate
  let (granted, r) := r.poll r.id true
  if r.quorum = granted then r.campaignElection []
  else r.requestVotes .msgPreVote (r.term + 1) []

/-- `campaign`. -/
def campaign (r : Raft) : CampaignType → Result Raft
  | .preElection => r.campaignPreElection
  | .election => r.campaignElection []
  | .transfer => r.campaignElection kCampaignTransfer

/-! ## The handlers of a leader's messages -/

/-- `handle_append_entries`. -/
def handleAppendEntries (r : Raft) (m : Message) : Result Raft := do
  if m.index < r.raftLog.committed then
    r.send { toId := m.fromId, type := .msgAppResp, index := r.raftLog.committed }
  else
    let (last, l) ← r.raftLog.maybeAppend m.index m.logTerm m.commit m.entries
    let r := { r with raftLog := l }
    match last with
    | some lastIndex => r.send { toId := m.fromId, type := .msgAppResp, index := lastIndex }
    | none =>
      r.send { toId := m.fromId, type := .msgAppResp, index := m.index, reject := true,
               rejectHint := r.raftLog.lastIndex }

/-- `handle_heartbeat`. The context of the request is assigned to the request itself, and the
response goes out without it. -/
def handleHeartbeat (r : Raft) (m : Message) : Result Raft := do
  let l ← r.raftLog.commitTo m.commit
  { r with raftLog := l }.send { toId := m.fromId, type := .msgHeartbeatResp }

/-- `restore`: whether the snapshot was installed. -/
def restore (r : Raft) (s : Snapshot) : Result (Bool × Raft) := do
  if s.metadata.index ≤ r.raftLog.committed then return (false, r)
  else if r.raftLog.matchTerm s.metadata.index s.metadata.term then
    let l ← r.raftLog.commitTo s.metadata.index
    return (false, { r with raftLog := l })
  else if ¬ r.isLearner ∧ r.id ∈ s.metadata.confState.learners then return (false, r)
  else
    let r := { r with raftLog := r.raftLog.restore s, prs := ∅, learnerPrs := ∅ }
    let r ← r.restoreNode s.metadata.confState.nodes false
    let r ← r.restoreNode s.metadata.confState.learners true
    return (true, r)

/-- `handle_snapshot`. Both branches assign the index to the request, and the response goes out with
the index zero. -/
def handleSnapshot (r : Raft) (m : Message) : Result Raft := do
  let (_, r) ← r.restore m.snapshot
  r.send { toId := m.fromId, type := .msgAppResp }

/-! ## Stepping by role -/

/-- The proposed entries as the leader appends them: while a configuration change may be pending,
another one becomes an empty entry. With them, the new `pending_conf_index_`. -/
def filterConfChanges (applied lastIndex : ℕ) : ℕ → ℕ → List Entry → ℕ × List Entry
  | _, pendingConfIndex, [] => (pendingConfIndex, [])
  | i, pendingConfIndex, e :: es =>
    if e.type = .entryConfChange then
      if pendingConfIndex > applied then
        let (p, es) := filterConfChanges applied lastIndex (i + 1) pendingConfIndex es
        (p, {} :: es)
      else
        let (p, es) := filterConfChanges applied lastIndex (i + 1) (lastIndex + i + 1) es
        (p, e :: es)
    else
      let (p, es) := filterConfChanges applied lastIndex (i + 1) pendingConfIndex es
      (p, e :: es)

/-- `step_leader` on a proposal. -/
def stepLeaderProp (r : Raft) (m : Message) : Result (Status × Raft) := do
  if m.entries = [] then .error .emptyProposal
  else if r.id ∉ r.prs then return (proposalDropped, r)
  else if r.leadTransferee ≠ 0 then return (proposalDropped, r)
  else
    let (pendingConfIndex, entries) :=
      filterConfChanges r.raftLog.applied r.raftLog.lastIndex 0 r.pendingConfIndex m.entries
    let (appended, r) ← { r with pendingConfIndex := pendingConfIndex }.appendEntry entries
    if ¬ appended then return (proposalDropped, r)
    else
      let r ← r.bcastAppend
      return (.ok, r)

/-- The answer to a read request, to the local node or to the one that asked. -/
def answerRead (r : Raft) (req : Message) (index : ℕ) : Result Raft := do
  if req.fromId = 0 ∨ req.fromId = r.id then
    let ctx ← req.readCtx
    return { r with readStates := r.readStates ++ [{ index := index, requestCtx := ctx }] }
  else
    r.send { toId := req.fromId, type := .msgReadIndexResp, index := index, entries := req.entries }

/-- `step_leader` on a read request. -/
def stepLeaderReadIndex (r : Raft) (m : Message) : Result Raft := do
  if r.quorum > 1 then
    -- The leader has to have committed an entry of its own term.
    match r.raftLog.term r.raftLog.committed with
    | .error _ => return r
    | .ok term =>
      if term ≠ r.term then return r
      else
        match r.readOnly.option with
        | .safe =>
          let ro ← r.readOnly.addRequest r.raftLog.committed m
          let ctx ← m.readCtx
          { r with readOnly := ro }.bcastHeartbeatWithCtx ctx
        | .leaseBased => r.answerRead m r.raftLog.committed
  else
    let ctx ← m.readCtx
    return { r with
      readStates := r.readStates ++ [{ index := r.raftLog.committed, requestCtx := ctx }] }

/-- The progress of a peer whose acknowledgement was news. -/
def progressOnAck (pr : Progress) (index : ℕ) : Result Progress :=
  match pr.state with
  | .probe => .ok pr.becomeReplicate
  | .snapshot => if pr.needSnapshotAbort then .ok pr.becomeProbe else .ok pr
  | .replicate => do
    let inflights ← pr.inflights.freeTo index
    return { pr with inflights := inflights }

/-- What `step_leader` sends when an acknowledgement was news: to all peers if it committed an entry,
else to the peer if it was paused. -/
def commitOnAck (r : Raft) (peer : ℕ) (oldPaused : Bool) : Result Raft := do
  let (committed, r) ← r.maybeCommit
  if committed then r.bcastAppend
  else if oldPaused then r.sendAppend peer
  else return r

/-- What `step_leader` does after an acknowledgement that was news. -/
def sendOnAck (r : Raft) (peer : ℕ) (oldPaused : Bool) : Result Raft := do
  let r ← r.commitOnAck peer oldPaused
  let r ← sendAppendLoop peer r.sendAppendFuel r
  let pr ← r.peerProgress peer
  if peer = r.leadTransferee ∧ pr.matched = r.raftLog.lastIndex then r.sendTimeoutNow peer
  else return r

/-- `step_leader` on the answer to an append. -/
def stepLeaderAppResp (r : Raft) (m : Message) (pr : Progress) : Result Raft := do
  let pr := { pr with recentActive := true }
  if m.reject then
    let (decreased, pr) := pr.maybeDecreasesTo m.index m.rejectHint
    if decreased then
      let pr := if pr.state = .replicate then pr.becomeProbe else pr
      (r.putProgress m.fromId pr).sendAppend m.fromId
    else return r.putProgress m.fromId pr
  else
    let oldPaused := pr.isPaused
    let (updated, pr) := pr.maybeUpdate m.index
    if updated then
      let pr ← progressOnAck pr m.index
      (r.putProgress m.fromId pr).sendOnAck m.fromId oldPaused
    else return r.putProgress m.fromId pr

/-- The progress of a peer that answered a heartbeat: a full window lets one more message through. -/
def progressOnHeartbeat (pr : Progress) : Result Progress :=
  let pr := { pr with recentActive := true }.resume
  if pr.state = .replicate ∧ pr.inflights.isFull then do
    let inflights ← pr.inflights.freeFirstOne
    return { pr with inflights := inflights }
  else .ok pr

/-- `step_leader` on the acknowledgement of a read that the answer to a heartbeat may carry. -/
def ackRead (r : Raft) (m : Message) : Result Raft := do
  if r.readOnly.option ≠ .safe ∨ m.context = [] then return r
  else
    let (ackCount, ro) := r.readOnly.recvAck m
    let r := { r with readOnly := ro }
    if ackCount < r.quorum then return r
    else
      let (rss, ro) ← r.readOnly.advance m
      rss.foldlM (fun r rs => r.answerRead rs.req rs.index) { r with readOnly := ro }

/-- `step_leader` on the answer to a heartbeat. -/
def stepLeaderHeartbeatResp (r : Raft) (m : Message) (pr : Progress) : Result Raft := do
  let pr ← progressOnHeartbeat pr
  let r := r.putProgress m.fromId pr
  if pr.matched < r.raftLog.lastIndex then
    let r ← r.sendAppend m.fromId
    r.ackRead m
  else r.ackRead m

/-- `step_leader` on the report about a snapshot. -/
def stepLeaderSnapStatus (r : Raft) (m : Message) (pr : Progress) : Raft :=
  if pr.state ≠ .snapshot then r
  else
    let pr := if ¬ m.reject then pr.becomeProbe else pr.snapshotFailure.becomeProbe
    r.putProgress m.fromId pr.setPause

/-- `step_leader` on a request to transfer the leadership, past the checks. -/
def startTransfer (r : Raft) (leadTransferee : ℕ) (pr : Progress) : Result Raft :=
  if leadTransferee = r.id then .ok r
  else
    let r := { r with electionElapsed := 0, leadTransferee := leadTransferee }
    if pr.matched = r.raftLog.lastIndex then r.sendTimeoutNow leadTransferee
    else r.sendAppend leadTransferee

/-- `step_leader` on a request to transfer the leadership. -/
def stepLeaderTransfer (r : Raft) (m : Message) (pr : Progress) : Result Raft :=
  if pr.isLearner then .ok r
  else if r.leadTransferee ≠ 0 then
    if r.leadTransferee = m.fromId then .ok r
    else r.abortLeaderTransfer.startTransfer m.fromId pr
  else r.startTransfer m.fromId pr

/-- `step_leader` on the messages that concern the progress of their sender. -/
def stepLeaderPeer (r : Raft) (m : Message) : Result Raft :=
  match r.getProgress m.fromId with
  | none => .ok r
  | some pr =>
    match m.type with
    | .msgAppResp => r.stepLeaderAppResp m pr
    | .msgHeartbeatResp => r.stepLeaderHeartbeatResp m pr
    | .msgSnapStatus => .ok (r.stepLeaderSnapStatus m pr)
    | .msgUnreachable =>
      if pr.state = .replicate then .ok (r.putProgress m.fromId pr.becomeProbe) else .ok r
    | .msgTransferLeader => r.stepLeaderTransfer m pr
    | _ => .ok r

/-- `step_leader`. -/
def stepLeader (r : Raft) (m : Message) : Result (Status × Raft) := do
  match m.type with
  | .msgBeat =>
    let r ← r.bcastHeartbeat
    return (.ok, r)
  | .msgCheckQuorum =>
    return (.ok, if ¬ r.checkQuorumActive then r.becomeFollower r.term 0 else r)
  | .msgProp => r.stepLeaderProp m
  | .msgReadIndex =>
    let r ← r.stepLeaderReadIndex m
    return (.ok, r)
  | _ =>
    let r ← r.stepLeaderPeer m
    return (.ok, r)

/-- `step_candidate` on the answer to a request for a vote or a pre-vote. The two kinds of answers
are counted alike, whichever campaign is going on. -/
def stepCandidateVoteResp (r : Raft) (m : Message) : Result Raft := do
  let (gr, r) := r.poll m.fromId (!m.reject)
  if r.quorum = gr then
    if r.state = .preCandidate then r.campaign .election
    else if r.state = .candidate then
      let r ← r.becomeLeader
      r.bcastAppend
    else .error .assertion
  else if r.quorum = r.votes.keys.length - gr then return r.becomeFollower r.term 0
  else return r

/-- `step_candidate`. -/
def stepCandidate (r : Raft) (m : Message) : Result (Status × Raft) := do
  match m.type with
  | .msgProp => return (proposalDropped, r)
  | .msgApp =>
    let r ← (r.becomeFollower m.term m.fromId).handleAppendEntries m
    return (.ok, r)
  | .msgHeartbeat =>
    let r ← (r.becomeFollower m.term m.fromId).handleHeartbeat m
    return (.ok, r)
  | .msgSnap =>
    let r ← (r.becomeFollower m.term m.fromId).handleSnapshot m
    return (.ok, r)
  | .msgPreVoteResp | .msgVoteResp =>
    let r ← r.stepCandidateVoteResp m
    return (.ok, r)
  | _ => return (.ok, r)

/-- `step_follower` on the answer to a read request. -/
def stepFollowerReadIndexResp (r : Raft) (m : Message) : Raft :=
  match m.entries with
  | [e] => { r with readStates := r.readStates ++ [{ index := m.index, requestCtx := e.data }] }
  | _ => r

/-- `step_follower`. -/
def stepFollower (r : Raft) (m : Message) : Result (Status × Raft) := do
  match m.type with
  | .msgProp =>
    if r.lead = 0 then return (proposalDropped, r)
    else if r.disableProposalForwarding then return (proposalDropped, r)
    else
      let r ← r.send { m with toId := r.lead }
      return (.ok, r)
  | .msgApp =>
    let r ← { r with electionElapsed := 0, lead := m.fromId }.handleAppendEntries m
    return (.ok, r)
  | .msgHeartbeat =>
    let r ← { r with electionElapsed := 0, lead := m.fromId }.handleHeartbeat m
    return (.ok, r)
  | .msgSnap =>
    let r ← { r with electionElapsed := 0, lead := m.fromId }.handleSnapshot m
    return (.ok, r)
  | .msgTransferLeader | .msgReadIndex =>
    if r.lead = 0 then return (.ok, r)
    else
      let r ← r.send { m with toId := r.lead }
      return (.ok, r)
  | .msgTimeoutNow =>
    if r.promotable then
      let r ← r.campaign .transfer
      return (.ok, r)
    else return (.ok, r)
  | .msgReadIndexResp => return (.ok, r.stepFollowerReadIndexResp m)
  | _ => return (.ok, r)

/-! ## Stepping -/

/-- `step` on a request to campaign. -/
def stepHup (r : Raft) : Result Raft := do
  if r.state = .leader then return r
  else
    let (status, entries) ←
      r.raftLog.slice (r.raftLog.applied + 1) (r.raftLog.committed + 1) RaftLog.unlimited
    if ¬ status.isOk then .error .unappliedEntries
    else if numOfPendingConf entries > 0 ∧ r.raftLog.committed > r.raftLog.applied then return r
    else r.campaign (if r.preVote then .preElection else .election)

/-- Whether `step` grants the vote that a message asks for. -/
def canVote (r : Raft) (m : Message) : Bool :=
  r.vote == m.fromId || (r.vote == 0 && r.lead == 0) || (m.type == .msgPreVote && m.term > r.term)

/-- `step` on a request for a vote or a pre-vote. -/
def stepVote (r : Raft) (m : Message) : Result Raft := do
  if r.isLearner then return r
  else
    let respType ← voteRespMsgType m.type
    if r.canVote m ∧ r.raftLog.isUpToDate m.index m.logTerm then
      let r ← r.send { toId := m.fromId, term := m.term, type := respType }
      -- Only real votes are recorded.
      if m.type = .msgVote then return { r with electionElapsed := 0, vote := m.fromId }
      else return r
    else
      r.send { toId := m.fromId, term := r.term, type := respType, reject := true }

/-- `step_`, the handler of the role. -/
def stepRole (r : Raft) (m : Message) : Result (Status × Raft) :=
  match r.state with
  | .leader => r.stepLeader m
  | .candidate | .preCandidate => r.stepCandidate m
  | .follower => r.stepFollower m

/-- `step` past the check of the term. -/
def stepBody (r : Raft) (m : Message) : Result (Status × Raft) := do
  match m.type with
  | .msgHup =>
    let r ← r.stepHup
    return (.ok, r)
  | .msgVote | .msgPreVote =>
    let r ← r.stepVote m
    return (.ok, r)
  | _ => r.stepRole m

/-- Whether `step` ignores a request for a vote because the leader's lease is not over. -/
def inLease (r : Raft) (m : Message) : Bool :=
  (m.type == .msgVote || m.type == .msgPreVote) && m.context != kCampaignTransfer &&
    r.checkQuorum && r.lead != 0 && r.electionElapsed < r.electionTimeout

/-- `step` on a message of a higher term: enter the term, except for pre-votes. -/
def stepHigherTerm (r : Raft) (m : Message) : Result Raft := do
  if m.type = .msgPreVote ∨ (m.type = .msgPreVoteResp ∧ ¬ m.reject) then return r
  else
    msgTypeToString m.type
    if m.type = .msgApp ∨ m.type = .msgHeartbeat ∨ m.type = .msgSnap then
      return r.becomeFollower m.term m.fromId
    else return r.becomeFollower m.term 0

/-- `step` on a message of a lower term. -/
def stepLowerTerm (r : Raft) (m : Message) : Result Raft := do
  if (r.checkQuorum ∨ r.preVote) ∧ (m.type = .msgHeartbeat ∨ m.type = .msgApp) then
    r.send { toId := m.fromId, type := .msgAppResp }
  else if m.type = .msgPreVote then
    r.send { toId := m.fromId, type := .msgPreVoteResp, reject := true, term := r.term }
  else
    msgTypeToString m.type
    return r

/-- `step`. -/
def step (r : Raft) (m : Message) : Result (Status × Raft) := do
  if m.term = 0 then r.stepBody m
  else if m.term > r.term then
    if r.inLease m then return (.ok, r)
    else
      let r ← r.stepHigherTerm m
      r.stepBody m
  else if m.term < r.term then
    let r ← r.stepLowerTerm m
    return (.ok, r)
  else r.stepBody m

/-! ## Ticks -/

/-- `tick_election`. -/
def tickElection (r : Raft) : Result Raft := do
  let r := { r with electionElapsed := r.electionElapsed + 1 }
  if r.promotable ∧ r.electionElapsed ≥ r.randomizedElectionTimeout then
    let (_, r) ← { r with electionElapsed := 0 }.step { fromId := r.id, type := .msgHup }
    return r
  else return r

/-- The quorum check of `tick_heartbeat`. -/
def tickCheckQuorum (r : Raft) : Result Raft := do
  if r.checkQuorum then
    let (_, r) ← r.step { fromId := r.id, type := .msgCheckQuorum }
    return r
  else return r

/-- The part of `tick_heartbeat` that comes at every election timeout. -/
def tickQuorum (r : Raft) : Result Raft := do
  if r.electionElapsed ≥ r.electionTimeout then
    let r ← { r with electionElapsed := 0 }.tickCheckQuorum
    if r.state = .leader ∧ r.leadTransferee ≠ 0 then return r.abortLeaderTransfer
    else return r
  else return r

/-- `tick_heartbeat`. -/
def tickHeartbeat (r : Raft) : Result Raft := do
  let r ← { r with
    heartbeatElapsed := r.heartbeatElapsed + 1
    electionElapsed := r.electionElapsed + 1 }.tickQuorum
  if r.state ≠ .leader then return r
  else if r.heartbeatElapsed ≥ r.heartbeatTimeout then
    let (_, r) ← { r with heartbeatElapsed := 0 }.step { fromId := r.id, type := .msgBeat }
    return r
  else return r

/-- `tick`. -/
def tick (r : Raft) : Result Raft :=
  match r.state with
  | .leader => r.tickHeartbeat
  | _ => r.tickElection

/-- The tick of a leader. -/
theorem tick_leader {r : Raft} (hl : r.state = .leader) : r.tick = r.tickHeartbeat := by
  unfold tick
  rw [hl]

/-- The tick of a node that does not lead. -/
theorem tick_election {r : Raft} (hl : r.state ≠ .leader) : r.tick = r.tickElection := by
  unfold tick
  split
  · next h => exact absurd h hl
  · rfl

end Raft

end RaftCpp
