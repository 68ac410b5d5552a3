import Mathlib.Algebra.GroupWithZero.Nat
import Mathlib.Data.List.Sort
import RaftCpp.Library.AssocMap
import RaftCpp.Raft.Config
import RaftCpp.Raft.Progress
import RaftCpp.Raft.RaftLog

/-!
# The state of a node

`Raft` of `raft-kv/raft/raft.h` and the parts of `raft-kv/raft/raft.cpp` that the handlers share:
sending, the progress of the peers, the membership, and the commit index. The handlers themselves are
in `Step.lean`.

The function pointers `step_` and `tick_` of the source are set together with `state_` and follow
from it, and the scratch buffer `match_buf_` is rebuilt at every use, so the model leaves them out.
-/

namespace RaftCpp

/-- `RaftState`. -/
inductive RaftState
  | follower
  | candidate
  | leader
  | preCandidate
deriving DecidableEq, Repr

/-- The state of a node. -/
structure Raft where
  /-- The node's own identity. -/
  id : ℕ
  /-- The current term. -/
  term : ℕ := 0
  /-- The node voted for in the current term, or zero. -/
  vote : ℕ := 0
  /-- The reads that are ready to be served. -/
  readStates : List ReadState := []
  /-- The log. -/
  raftLog : RaftLog
  /-- The limit on the size of the entries in an append message. -/
  maxMsgSize : ℕ
  /-- The limit on the size of a leader's uncommitted entries. -/
  maxUncommittedSize : ℕ
  /-- The limit on the number of append messages on their way to a peer. -/
  maxInflight : ℕ
  /-- The progress of the voters. -/
  prs : AList (fun _ : ℕ => Progress) := ∅
  /-- The progress of the learners. -/
  learnerPrs : AList (fun _ : ℕ => Progress) := ∅
  /-- The role. -/
  state : RaftState := .follower
  /-- Whether the node is a learner. -/
  isLearner : Bool := false
  /-- The answers to the current campaign. -/
  votes : AList (fun _ : ℕ => Bool) := ∅
  /-- The messages to send. -/
  msgs : List Message := []
  /-- The leader, or zero. -/
  lead : ℕ := 0
  /-- The node that leadership is being transferred to, or zero. -/
  leadTransferee : ℕ := 0
  /-- An index at or above the last configuration change that is not applied. -/
  pendingConfIndex : ℕ := 0
  /-- An estimate of the size of the leader's uncommitted entries. -/
  uncommittedSize : ℕ := 0
  /-- The pending reads. -/
  readOnly : ReadOnly
  /-- The ticks since the node last heard from the leader, or since its last quorum check. -/
  electionElapsed : ℕ := 0
  /-- The ticks since the leader's last heartbeat. -/
  heartbeatElapsed : ℕ := 0
  /-- Whether a leader steps down when it does not hear from a quorum. -/
  checkQuorum : Bool
  /-- Whether an election is preceded by a poll. -/
  preVote : Bool
  /-- The number of ticks between heartbeats. -/
  heartbeatTimeout : ℕ
  /-- The number of ticks between elections. -/
  electionTimeout : ℕ
  /-- The number of ticks until the next election, chosen at random. -/
  randomizedElectionTimeout : ℕ := 0
  /-- Whether followers drop proposals instead of forwarding them. -/
  disableProposalForwarding : Bool
  /-- The node's random device. -/
  randomDevice : RandomDevice

namespace Raft

/-! ## Sending -/

/-- Whether a message carries the term of a campaign. -/
def isVoteType (t : MessageType) : Bool :=
  t == .msgVote || t == .msgVoteResp || t == .msgPreVote || t == .msgPreVoteResp

/-- `send`: queue a message, with the term that its type calls for. -/
def send (r : Raft) (m : Message) : Result Raft :=
  let m := { m with fromId := r.id }
  if isVoteType m.type then
    if m.term = 0 then .error .termNotSet
    else .ok { r with msgs := r.msgs ++ [m] }
  else if m.term ≠ 0 then .error .termSet
  -- Proposals and read requests are forwarded to the leader and carry no term.
  else if m.type ≠ .msgProp ∧ m.type ≠ .msgReadIndex then
    .ok { r with msgs := r.msgs ++ [{ m with term := r.term }] }
  else .ok { r with msgs := r.msgs ++ [m] }

/-! ## Progress and membership -/

/-- `quorum`. -/
def quorum (r : Raft) : ℕ := r.prs.keys.length / 2 + 1

/-- `get_progress`. -/
def getProgress (r : Raft) (id : ℕ) : Option Progress :=
  (r.prs.lookup id).or (r.learnerPrs.lookup id)

/-- The progress behind the pointer that `get_progress` returns, which is null for an unknown
node. -/
def peerProgress (r : Raft) (id : ℕ) : Result Progress :=
  match r.getProgress id with
  | some p => .ok p
  | none => .error .nullPointer

/-- A write through the pointer that `get_progress` returned. -/
def putProgress (r : Raft) (id : ℕ) (p : Progress) : Raft :=
  if id ∈ r.prs then { r with prs := r.prs.insert id p }
  else if id ∈ r.learnerPrs then { r with learnerPrs := r.learnerPrs.insert id p }
  else r

/-- `for_each_progress` calls back on the voters and then on the learners. -/
def progressIds (r : Raft) : List ℕ := r.prs.keys ++ r.learnerPrs.keys

/-- `set_progress`. -/
def setProgress (r : Raft) (id matched next : ℕ) (isLearner : Bool) : Result Raft :=
  let p : Progress := { Progress.new r.maxInflight with next := next, matched := matched }
  if ¬ isLearner then
    .ok { r with learnerPrs := r.learnerPrs.erase id, prs := r.prs.insert id p }
  else if id ∈ r.prs then .error (.voterToLearner id)
  else .ok { r with learnerPrs := r.learnerPrs.insert id { p with isLearner := true } }

/-- `del_progress`. -/
def delProgress (r : Raft) (id : ℕ) : Raft :=
  { r with prs := r.prs.erase id, learnerPrs := r.learnerPrs.erase id }

/-- `promotable`: whether the node may become leader. -/
def promotable (r : Raft) : Bool := (r.prs.lookup r.id).isSome

/-- `restore_node`. Its log line reads the node's own progress, which may not be there yet. -/
def restoreNode (r : Raft) (nodes : List ℕ) (isLearner : Bool) : Result Raft :=
  nodes.foldlM (fun r node => do
    let next := r.raftLog.lastIndex + 1
    let matched := if node = r.id then next - 1 else 0
    let r := if node = r.id then { r with isLearner := isLearner } else r
    let r ← r.setProgress node matched next isLearner
    let _ ← r.peerProgress r.id
    return r) r

/-- `nodes`, in ascending order. -/
def nodes (r : Raft) : List ℕ := r.prs.keys.insertionSort (· ≤ ·)

/-! ## Resetting -/

/-- `reset_randomized_election_timeout`. The assertion on the result cannot fail, by
`resetRandomizedElectionTimeout_le`. -/
def resetRandomizedElectionTimeout (r : Raft) : Raft :=
  let (n, device) := r.randomDevice.gen r.electionTimeout
  { r with randomizedElectionTimeout := r.electionTimeout + n, randomDevice := device }

/-- The randomized timeout is at most twice the timeout. -/
theorem resetRandomizedElectionTimeout_le (r : Raft) :
    r.resetRandomizedElectionTimeout.randomizedElectionTimeout ≤
      2 * r.resetRandomizedElectionTimeout.electionTimeout := by
  have h := r.randomDevice.gen_le r.electionTimeout
  simp only [resetRandomizedElectionTimeout]
  omega

/-- `abort_leader_transfer`. -/
def abortLeaderTransfer (r : Raft) : Raft := { r with leadTransferee := 0 }

/-- The progress that `reset` starts a peer with. -/
def freshProgress (r : Raft) (id : ℕ) (p : Progress) : Progress :=
  { Progress.new r.maxInflight with
    next := r.raftLog.lastIndex + 1
    isLearner := p.isLearner
    matched := if id = r.id then r.raftLog.lastIndex else 0 }

/-- `reset`: enter a term, or start over in the current one. -/
def reset (r : Raft) (term : ℕ) : Raft :=
  let r := if r.term ≠ term then { r with term := term, vote := 0 } else r
  let r := { r with lead := 0, electionElapsed := 0, heartbeatElapsed := 0 }
  let r := r.resetRandomizedElectionTimeout.abortLeaderTransfer
  { r with
    votes := ∅
    prs := r.prs.mapVal r.freshProgress
    learnerPrs := r.learnerPrs.mapVal r.freshProgress
    pendingConfIndex := 0
    uncommittedSize := 0
    readOnly := r.readOnly.clear }

section Reset

variable (r : Raft) (t : ℕ)

/-- The identity stays. -/
@[simp] theorem reset_id : (r.reset t).id = r.id := by
  simp only [reset]
  split <;> rfl

/-- The term is the given one. -/
@[simp] theorem reset_term : (r.reset t).term = t := by
  simp only [reset]
  split
  · rfl
  · next h => exact not_not.mp h

/-- The vote is kept in the term, and empty in a new one. -/
@[simp] theorem reset_vote : (r.reset t).vote = if r.term = t then r.vote else 0 := by
  simp only [reset]
  by_cases h : r.term = t
  · rw [if_neg (not_not.mpr h), if_pos h]
    rfl
  · rw [if_pos h, if_neg h]
    rfl

/-- The log stays. -/
@[simp] theorem reset_raftLog : (r.reset t).raftLog = r.raftLog := by
  simp only [reset]
  split <;> rfl

/-- The role stays. -/
@[simp] theorem reset_state : (r.reset t).state = r.state := by
  simp only [reset]
  split <;> rfl

/-- The node stays a learner or a voter. -/
@[simp] theorem reset_isLearner : (r.reset t).isLearner = r.isLearner := by
  simp only [reset]
  split <;> rfl

/-- The setting of pre-votes stays. -/
@[simp] theorem reset_preVote : (r.reset t).preVote = r.preVote := by
  simp only [reset]
  split <;> rfl

/-- The messages stay. -/
@[simp] theorem reset_msgs : (r.reset t).msgs = r.msgs := by
  simp only [reset]
  split <;> rfl

/-- The answers to the campaign are forgotten. -/
@[simp] theorem reset_votes : (r.reset t).votes = ∅ := rfl

/-- The size of the uncommitted entries is forgotten. -/
@[simp] theorem reset_uncommittedSize : (r.reset t).uncommittedSize = 0 := rfl

/-- The voters stay. -/
@[simp] theorem mem_reset_prs (y : ℕ) : y ∈ (r.reset t).prs ↔ y ∈ r.prs := by
  simp only [reset, AList.mem_mapVal]
  split <;> rfl

/-- The number of voters stays. -/
@[simp] theorem reset_quorum : (r.reset t).quorum = r.quorum := by
  simp only [quorum, reset, AList.keys_mapVal]
  split <;> rfl

/-- The progress of every peer starts at the end of the log. -/
theorem getProgress_reset {y : ℕ} {p : Progress} (h : (r.reset t).getProgress y = some p) :
    p.next = r.raftLog.lastIndex + 1 ∧ p.state = .probe ∧
      (p.matched = 0 ∨ y = r.id ∧ p.matched = r.raftLog.lastIndex) := by
  have hfresh : ∀ (r₁ : Raft) (q : Progress), r₁.id = r.id → r₁.raftLog = r.raftLog →
      p = r₁.freshProgress y q → p.next = r.raftLog.lastIndex + 1 ∧ p.state = .probe ∧
        (p.matched = 0 ∨ y = r.id ∧ p.matched = r.raftLog.lastIndex) := by
    rintro r₁ q hid hlog rfl
    refine ⟨by rw [← hlog]; rfl, rfl, ?_⟩
    by_cases hy : y = r.id
    · refine Or.inr ⟨hy, ?_⟩
      rw [freshProgress, hid, hlog]
      exact if_pos hy
    · refine Or.inl ?_
      rw [freshProgress, hid]
      exact if_neg hy
  simp only [getProgress, reset, AList.lookup_mapVal] at h
  rw [Option.or_eq_some_iff] at h
  rcases h with h | ⟨-, h⟩
  · obtain ⟨q, -, hq⟩ := Option.map_eq_some_iff.mp h
    refine hfresh _ q ?_ ?_ hq.symm <;> · split <;> rfl
  · obtain ⟨q, -, hq⟩ := Option.map_eq_some_iff.mp h
    refine hfresh _ q ?_ ?_ hq.symm <;> · split <;> rfl

end Reset

/-- `become_follower`. -/
def becomeFollower (r : Raft) (term lead : ℕ) : Raft :=
  { r.reset term with lead := lead, state := .follower }

/-- `become_candidate`. -/
def becomeCandidate (r : Raft) : Result Raft :=
  if r.state = .leader then .error .leaderToCandidate
  else .ok { r.reset (r.term + 1) with vote := r.id, state := .candidate }

/-- `become_pre_candidate`: the term and the vote stay. -/
def becomePreCandidate (r : Raft) : Result Raft :=
  if r.state = .leader then .error .leaderToPreCandidate
  else .ok { r with votes := ∅, lead := 0, state := .preCandidate }

/-- `poll`: record an answer to the campaign, and count the grants. The type of the answer only goes
to the log. -/
def poll (r : Raft) (id : ℕ) (v : Bool) : ℕ × Raft :=
  let votes := match r.votes.lookup id with
    | none => r.votes.insert id v
    | some _ => r.votes
  (votes.entries.countP (·.2), { r with votes := votes })

/-! ## Replication -/

/-- The append message that `maybe_send_append` fills in, and the progress after it. -/
def prepareAppend (r : Raft) (peer : ℕ) (pr : Progress) (term : ℕ) (entries : List Entry) :
    Result (Message × Progress) := do
  let m : Message :=
    { toId := peer, type := .msgApp, index := sub64 pr.next 1, logTerm := term, entries := entries,
      commit := r.raftLog.committed }
  match entries.getLast? with
  | none => return (m, pr)
  | some e =>
    match pr.state with
    | .replicate =>
      let pr := pr.optimisticUpdate e.index
      let inflights ← pr.inflights.add e.index
      return (m, { pr with inflights := inflights })
    | .probe => return (m, pr.setPause)
    | .snapshot => .error .unhandledProgressState

/-- The snapshot message that `maybe_send_append` fills in, and the progress after it. -/
def prepareSnapshot (r : Raft) (peer : ℕ) (pr : Progress) : Result (Message × Progress) :=
  let snap := r.raftLog.snapshot
  if snap.isEmpty then .error .emptySnapshot
  else .ok ({ toId := peer, type := .msgSnap, snapshot := snap },
    pr.becomeSnapshot snap.metadata.index)

/-- `maybe_send_append`: whether a message was sent. -/
def maybeSendAppend (r : Raft) (peer : ℕ) (sendIfEmpty : Bool) : Result (Bool × Raft) := do
  let pr ← r.peerProgress peer
  if pr.isPaused then return (false, r)
  else
    let term := r.raftLog.term (sub64 pr.next 1)
    let (status, entries) ← r.raftLog.entries pr.next r.maxMsgSize
    if entries = [] ∧ ¬ sendIfEmpty then return (false, r)
    else
      match term, status.isOk with
      | .ok term, true =>
        let (m, pr) ← r.prepareAppend peer pr term entries
        let r ← (r.putProgress peer pr).send m
        return (true, r)
      | _, _ =>
        if ¬ pr.recentActive then return (false, r)
        else
          let (m, pr) ← r.prepareSnapshot peer pr
          let r ← (r.putProgress peer pr).send m
          return (true, r)

/-- `send_append`. -/
def sendAppend (r : Raft) (peer : ℕ) : Result Raft := do
  let (_, r) ← r.maybeSendAppend peer true
  return r

/-- The loop of `maybe_send_append(from, false)`, for at most the given number of messages. -/
def sendAppendLoop (peer : ℕ) : ℕ → Raft → Result Raft
  | 0, _ => .error .outOfFuel
  | fuel + 1, r => do
    let (sent, r) ← r.maybeSendAppend peer false
    if sent then sendAppendLoop peer fuel r else return r

/-- A number of messages after which the loop has sent the whole log. -/
def sendAppendFuel (r : Raft) : ℕ := r.raftLog.lastIndex + 2

/-- `send_heartbeat`. The commit index in it is one that the peer is known to hold. -/
def sendHeartbeat (r : Raft) (peer : ℕ) (ctx : Bytes) : Result Raft := do
  let pr ← r.peerProgress peer
  r.send { toId := peer, type := .msgHeartbeat, commit := min pr.matched r.raftLog.committed,
           context := ctx }

/-- `send_timeout_now`. -/
def sendTimeoutNow (r : Raft) (peer : ℕ) : Result Raft := r.send { toId := peer, type := .msgTimeoutNow }

/-- `bcast_append`. -/
def bcastAppend (r : Raft) : Result Raft :=
  r.progressIds.foldlM (fun r id => if id = r.id then .ok r else r.sendAppend id) r

/-- `bcast_heartbeat_with_ctx`. -/
def bcastHeartbeatWithCtx (r : Raft) (ctx : Bytes) : Result Raft :=
  r.progressIds.foldlM (fun r id => if id = r.id then .ok r else r.sendHeartbeat id ctx) r

/-- `bcast_heartbeat`. -/
def bcastHeartbeat (r : Raft) : Result Raft :=
  r.bcastHeartbeatWithCtx r.readOnly.lastPendingRequestCtx

/-- The match values of the voters, in ascending order. -/
def sortedMatches (r : Raft) : List ℕ :=
  (r.prs.entries.map (·.2.matched)).insertionSort (· ≤ ·)

/-- `maybe_commit`. -/
def maybeCommit (r : Raft) : Result (Bool × Raft) := do
  let matches_ := r.sortedMatches
  let mci ← elemAt matches_ (sub64 matches_.length r.quorum)
  let (committed, l) ← r.raftLog.maybeCommit mci r.term
  return (committed, { r with raftLog := l })

/-- The sum of the payload sizes, in 32-bit arithmetic. -/
def payloadSum (entries : List Entry) : ℕ :=
  entries.foldl (fun s e => (s + e.payloadSize) % 2^32) 0

/-- The total length of the payloads. -/
def payloadTotal (entries : List Entry) : ℕ := (entries.map (·.data.length)).sum

/-- Nothing has no payload. -/
@[simp] theorem payloadTotal_nil : payloadTotal [] = 0 := rfl

/-- The payload of the first entry and that of the others. -/
@[simp] theorem payloadTotal_cons (e : Entry) (es : List Entry) :
    payloadTotal (e :: es) = e.data.length + payloadTotal es := by
  simp [payloadTotal]

/-- The payload of two lists. -/
@[simp] theorem payloadTotal_append (es es' : List Entry) :
    payloadTotal (es ++ es') = payloadTotal es + payloadTotal es' := by
  simp [payloadTotal]

/-- The sum is the total, up to the overflow. -/
theorem payloadSum_eq (es : List Entry) : payloadSum es = payloadTotal es % 2^32 := by
  have hfold : ∀ (es : List Entry) (n : ℕ), n < 2^32 →
      es.foldl (fun s e => (s + e.payloadSize) % 2^32) n = (n + payloadTotal es) % 2^32 := by
    intro es
    induction es with
    | nil =>
      intro n hn
      exact (Nat.mod_eq_of_lt hn).symm
    | cons e es ih =>
      intro n hn
      rw [List.foldl_cons, ih _ (Nat.mod_lt _ (by decide)), payloadTotal_cons]
      unfold Entry.payloadSize
      omega
  rw [payloadSum, hfold es 0 (by decide), Nat.zero_add]

/-- `increase_uncommitted_size`: nothing if the entries would exceed the limit. -/
def increaseUncommittedSize (r : Raft) (entries : List Entry) : Option Raft :=
  let s := payloadSum entries
  if r.uncommittedSize > 0 ∧ r.uncommittedSize + s > r.maxUncommittedSize then none
  else some { r with uncommittedSize := r.uncommittedSize + s }

/-- Only the size of the uncommitted entries changes. -/
theorem increaseUncommittedSize_eq {r r' : Raft} {es : List Entry}
    (h : r.increaseUncommittedSize es = some r') : ∃ n, r' = { r with uncommittedSize := n } := by
  unfold increaseUncommittedSize at h
  dsimp only at h
  split_ifs at h
  cases h
  exact ⟨_, rfl⟩

/-- `reduce_uncommitted_size`. -/
def reduceUncommittedSize (r : Raft) (entries : List Entry) : Raft :=
  if r.uncommittedSize = 0 then r
  else
    let size := payloadSum entries
    { r with uncommittedSize := if size > r.uncommittedSize then 0 else r.uncommittedSize - size }

/-- Only the size of the uncommitted entries changes. -/
theorem reduceUncommittedSize_eq (r : Raft) (es : List Entry) :
    ∃ n, r.reduceUncommittedSize es = { r with uncommittedSize := n } := by
  unfold reduceUncommittedSize
  split_ifs
  · exact ⟨_, rfl⟩
  · exact ⟨_, rfl⟩

/-- The entries that `append_entry` appends: the proposed ones, with their terms and indices. -/
def stampEntries (term : ℕ) : ℕ → List Entry → List Entry
  | _, [] => []
  | index, e :: es =>
    { term := term, index := index, data := e.data, type := e.type } ::
      stampEntries term (index + 1) es

/-- The stamp does not change the payloads. -/
theorem payloadTotal_stampEntries (term : ℕ) : ∀ (i : ℕ) (es : List Entry),
    payloadTotal (stampEntries term i es) = payloadTotal es
  | _, [] => rfl
  | i, e :: es => congrArg (e.data.length + ·) (payloadTotal_stampEntries term (i + 1) es)

/-- `append_entry`: whether the entries were appended. -/
def appendEntry (r : Raft) (entries : List Entry) : Result (Bool × Raft) := do
  let ents := stampEntries r.term (r.raftLog.lastIndex + 1) entries
  match r.increaseUncommittedSize ents with
  | none => return (false, r)
  | some r =>
    let l ← r.raftLog.append ents
    let r := { r with raftLog := l }
    let pr ← r.peerProgress r.id
    let r := r.putProgress r.id (pr.maybeUpdate l.lastIndex).2
    let (_, r) ← r.maybeCommit
    return (true, r)

/-- The part of `become_leader` that takes the role. -/
def takeLead (r : Raft) : Raft := { r.reset r.term with lead := r.id, state := .leader }

/-- `become_leader`. -/
def becomeLeader (r : Raft) : Result Raft := do
  if r.state = .follower then .error .followerToLeader
  else
    let r := r.takeLead
    match r.prs.lookup r.id with
    | none => .error .ownProgressMissing
    | some pr =>
      let r := { r with prs := r.prs.insert r.id pr.becomeReplicate }
      let r := { r with pendingConfIndex := r.raftLog.lastIndex }
      let (appended, r) ← r.appendEntry [{}]
      if ¬ appended then .error .emptyEntryDropped
      -- The empty entry does not count towards the limit on uncommitted entries.
      else return r.reduceUncommittedSize [{}]

/-- `check_quorum_active`. Its flags are not cleared. -/
def checkQuorumActive (r : Raft) : Bool :=
  let act := (r.prs.entries ++ r.learnerPrs.entries).countP fun e =>
    e.1 == r.id || (e.2.recentActive && !e.2.isLearner)
  act ≥ r.quorum

/-! ## Changing the membership -/

/-- The end of `add_node_or_learner`: an added node counts as active until the next quorum check. -/
def markActive (r : Raft) (id : ℕ) (isLearner : Bool) : Result Raft := do
  let r := if r.id = id then { r with isLearner := isLearner } else r
  let pr ← r.peerProgress id
  return r.putProgress id { pr with recentActive := true }

/-- `add_node_or_learner`. -/
def addNodeOrLearner (r : Raft) (id : ℕ) (isLearner : Bool) : Result Raft := do
  match r.getProgress id with
  | none => do
    let r ← r.setProgress id 0 (r.raftLog.lastIndex + 1) isLearner
    r.markActive id isLearner
  | some pr =>
    -- A voter cannot become a learner.
    if isLearner ∧ ¬ pr.isLearner then return r
    else if isLearner = pr.isLearner then return r
    else
      markActive
        { r with
          learnerPrs := r.learnerPrs.erase id
          prs := r.prs.insert id { pr with isLearner := false } } id isLearner

/-- `add_node`. -/
def addNode (r : Raft) (id : ℕ) : Result Raft := r.addNodeOrLearner id false

/-- `remove_node`. -/
def removeNode (r : Raft) (id : ℕ) : Result Raft := do
  let r := r.delProgress id
  if r.prs.keys = [] ∧ r.learnerPrs.keys = [] then return r
  else
    let (committed, r) ← r.maybeCommit
    let r ← if committed then r.bcastAppend else pure r
    if r.state = .leader ∧ r.leadTransferee = id then return r.abortLeaderTransfer
    else return r

/-! ## The hard state -/

/-- `hard_state`. -/
def hardState (r : Raft) : HardState :=
  { term := r.term, vote := r.vote, commit := r.raftLog.committed }

/-- `load_state`. -/
def loadState (r : Raft) (hs : HardState) : Result Raft :=
  if hs.commit < r.raftLog.committed ∨ hs.commit > r.raftLog.lastIndex then
    .error (.loadStateOutOfRange hs.commit r.raftLog.committed r.raftLog.lastIndex)
  else
    .ok { r with
      raftLog := { r.raftLog with committed := hs.commit }, term := hs.term, vote := hs.vote }

/-! ## Starting -/

/-- The voters and the learners that the constructor starts with: those of the storage's snapshot,
or those of the configuration. -/
def initialMembers (c : Config) : Result (List ℕ × List ℕ) :=
  let cs := c.storage.initialState.2
  if cs.nodes ≠ [] ∨ cs.learners ≠ [] then
    if c.peers ≠ [] ∨ c.learners ≠ [] then .error .peersAndConfState
    else .ok (cs.nodes, cs.learners)
  else .ok (c.peers, c.learners)

/-- The node before its members and its hard state are known. -/
def blank (c : Config) : Raft :=
  { id := c.id
    maxMsgSize := c.maxSizePerMsg
    maxUncommittedSize := c.maxUncommittedEntriesSize
    maxInflight := c.maxInflightMsgs
    readOnly := { option := c.readOnlyOption }
    checkQuorum := c.checkQuorum
    preVote := c.preVote
    heartbeatTimeout := c.heartbeatTick
    electionTimeout := c.electionTick
    disableProposalForwarding := c.disableProposalForwarding
    randomDevice := c.randomDevice
    raftLog := RaftLog.new c.storage c.maxCommittedSizePerReady }

/-- The constructor's loop over the voters. -/
def addPeers (r : Raft) (peers : List ℕ) : Raft :=
  peers.foldl
    (fun r peer => { r with
      prs := r.prs.insert peer { Progress.new r.maxInflight with next := 1 } }) r

/-- The constructor's loop over the learners. -/
def addLearners (r : Raft) (learners : List ℕ) : Result Raft :=
  learners.foldlM (fun r learner =>
    if learner ∈ r.prs then .error (.learnerIsPeer learner)
    else .ok { r with
      learnerPrs := r.learnerPrs.insert learner
        { Progress.new r.maxInflight with next := 1, isLearner := true }
      isLearner := r.isLearner || r.id == learner }) r

/-- The constructor. -/
def new (c : Config) : Result Raft := do
  let (peers, learners) ← initialMembers c
  let r ← ((blank c).addPeers peers).addLearners learners
  let hs := c.storage.initialState.1
  let r ← if ¬ hs.isEmptyState then r.loadState hs else pure r
  let r := if c.applied > 0 then { r with raftLog := r.raftLog.appliedTo c.applied } else r
  return r.becomeFollower r.term 0

end Raft

end RaftCpp
