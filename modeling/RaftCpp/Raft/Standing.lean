import RaftCpp.Raft.Activity

/-!
# What the handlers of a leader leave alone

A leader that sends, commits, or hears from its peers changes what it knows of their progress, its commit
index, and its messages. The members, the term and the role, the entries of the log, the transfer of the lead
and the size of what is not committed stay as they are.
-/

namespace RaftCpp

open Outcome

/-- A node, and who of its peers is a voter and who a learner, with the flags in their progress. -/
structure Roster where
  /-- The identity. -/
  id : ℕ
  /-- Whether the node takes itself for a learner. -/
  isLearner : Bool
  /-- The flags of the voters. -/
  voters : ℕ → Option Bool
  /-- The flags of the learners. -/
  learners : ℕ → Option Bool

/-- What the handlers of a leader leave alone. -/
structure Standing where
  /-- The members. -/
  roster : Roster
  /-- The term. -/
  term : ℕ
  /-- The role. -/
  state : RaftState
  /-- The node that is to take over. -/
  leadTransferee : ℕ
  /-- The size of the entries that are not committed. -/
  uncommittedSize : ℕ
  /-- The limit on that size. -/
  maxUncommittedSize : ℕ
  /-- The log without its commit index. -/
  log : RaftLog

namespace Raft

variable {r r' : Raft} {y : ℕ} {p p' : Progress}

/-- The members of a node. -/
def roster (r : Raft) : Roster where
  id := r.id
  isLearner := r.isLearner
  voters y := (r.prs.lookup y).map (·.isLearner)
  learners y := (r.learnerPrs.lookup y).map (·.isLearner)

/-- What a node is, apart from its progress, its commit index and its messages. -/
def standing (r : Raft) : Standing where
  roster := r.roster
  term := r.term
  state := r.state
  leadTransferee := r.leadTransferee
  uncommittedSize := r.uncommittedSize
  maxUncommittedSize := r.maxUncommittedSize
  log := { r.raftLog with committed := 0 }

/-- The computation leaves the standing alone. -/
def KeepsStanding (r : Raft) (x : Result Raft) : Prop := Ensures x fun r' => r'.standing = r.standing

/-! ## Progress -/

/-- A write that keeps the flag of a peer. -/
theorem roster_putProgress (hget : r.getProgress y = some p) (hflag : p'.isLearner = p.isLearner) :
    (r.putProgress y p').roster = r.roster := by
  have hinsert : ∀ (prs : AList fun _ : ℕ => Progress) (q : Progress), prs.lookup y = some q →
      q.isLearner = p.isLearner → (fun z => ((prs.insert y p').lookup z).map (·.isLearner)) =
        fun z => (prs.lookup z).map (·.isLearner) := by
    intro prs q hq hqp
    funext z
    rw [AList.lookup_insert_eq]
    by_cases hz : z = y
    · rw [if_pos hz, hz, hq]
      exact congrArg some (hflag.trans hqp.symm)
    · rw [if_neg hz]
  unfold getProgress at hget
  unfold putProgress
  split_ifs with hvoter hlearner
  · obtain ⟨q, hq⟩ := Option.isSome_iff_exists.mp (AList.lookup_isSome.mpr hvoter)
    rw [hq, Option.some_or] at hget
    unfold roster
    dsimp only
    rw [hinsert r.prs q hq (congrArg Progress.isLearner (Option.some.inj hget))]
  · rw [AList.lookup_eq_none.mpr hvoter, Option.none_or] at hget
    unfold roster
    dsimp only
    rw [hinsert r.learnerPrs p hget rfl]
  · rfl

/-- Such a write leaves the standing alone. -/
theorem standing_putProgress (hget : r.getProgress y = some p) (hflag : p'.isLearner = p.isLearner) :
    (r.putProgress y p').standing = r.standing := by
  have hroster := roster_putProgress hget hflag
  obtain ⟨prs, learnerPrs, hput⟩ := r.putProgress_eq y p'
  rw [hput] at hroster ⊢
  unfold standing
  dsimp only
  rw [hroster]

/-- Reading leaves the standing alone. -/
theorem OnlyReads.standing (h : r.OnlyReads r') : r'.standing = r.standing := by
  obtain ⟨readStates, msgs, readOnly, rfl⟩ := h
  rfl

/-! ## Sending -/

/-- `send`. -/
theorem keepsStanding_send (r : Raft) (x : Message) : r.KeepsStanding (r.send x) := by
  intro r' h
  obtain ⟨rfl, -⟩ := send_eq h
  rfl

/-- A message goes out with a change of the progress of its receiver. -/
theorem keepsStanding_putSend (hget : r.getProgress y = some p) (hflag : p'.isLearner = p.isLearner)
    (x : Message) : r.KeepsStanding ((r.putProgress y p').send x) :=
  (keepsStanding_send _ x).mono fun _ h => h.trans (standing_putProgress hget hflag)

/-- `maybe_send_append`. -/
theorem keepsStanding_maybeSendAppend (r : Raft) (peer : ℕ) (sendIfEmpty : Bool) :
    Ensures (r.maybeSendAppend peer sendIfEmpty) fun q => q.2.standing = r.standing := by
  unfold maybeSendAppend
  refine Ensures.bind peerProgress_eq fun pr hget => ?_
  refine Ensures.ite (fun _ => Ensures.pure rfl) fun _ => ?_
  refine Ensures.bind Ensures.any fun q _ => ?_
  refine Ensures.ite (fun _ => Ensures.pure rfl) fun _ => ?_
  split
  · refine Ensures.bind (P := fun q => q.2.isLearner = pr.isLearner) ?_ fun q hq => ?_
    · unfold prepareAppend
      dsimp only
      split
      · exact Ensures.pure rfl
      · split
        · exact Ensures.bind Ensures.any fun f _ => Ensures.pure rfl
        · exact Ensures.pure rfl
        · exact Ensures.error
    · exact Ensures.bind (keepsStanding_putSend hget hq q.1) fun r' hr' => Ensures.pure hr'
  · refine Ensures.ite (fun _ => Ensures.pure rfl) fun _ => ?_
    refine Ensures.bind (P := fun q => q.2.isLearner = pr.isLearner) ?_ fun q hq => ?_
    · unfold prepareSnapshot
      exact Ensures.ite (fun _ => Ensures.error) fun _ => Ensures.ok rfl
    · exact Ensures.bind (keepsStanding_putSend hget hq q.1) fun r' hr' => Ensures.pure hr'

/-- `send_append`. -/
theorem keepsStanding_sendAppend (r : Raft) (peer : ℕ) : r.KeepsStanding (r.sendAppend peer) := by
  unfold sendAppend
  exact Ensures.bind (r.keepsStanding_maybeSendAppend peer true) fun q hq => Ensures.pure hq

/-- The loop of `maybe_send_append`. -/
theorem keepsStanding_sendAppendLoop (peer : ℕ) :
    ∀ (fuel : ℕ) (r : Raft), r.KeepsStanding (sendAppendLoop peer fuel r)
  | 0, _ => Ensures.error
  | fuel + 1, r => by
    unfold sendAppendLoop
    refine Ensures.bind (r.keepsStanding_maybeSendAppend peer false) fun q hq => ?_
    refine Ensures.ite (fun _ => ?_) fun _ => Ensures.pure hq
    exact (keepsStanding_sendAppendLoop peer fuel q.2).mono fun r' hr' => hr'.trans hq

/-- A loop over the peers. -/
theorem keepsStanding_forPeers {f : Raft → ℕ → Result Raft}
    (hf : ∀ (r : Raft) (id : ℕ), r.KeepsStanding (f r id)) (ids : List ℕ) (r : Raft) :
    r.KeepsStanding (ids.foldlM (fun r id => if id = r.id then .ok r else f r id) r) := by
  refine Ensures.foldlM ids (fun r₁ id _ h₁ => ?_) r rfl
  refine Ensures.ite (fun _ => Ensures.ok h₁) fun _ => ?_
  exact (hf r₁ id).mono fun r₂ h₂ => h₂.trans h₁

/-- `bcast_append`. -/
theorem keepsStanding_bcastAppend (r : Raft) : r.KeepsStanding r.bcastAppend := by
  unfold bcastAppend
  exact keepsStanding_forPeers (fun r id => r.keepsStanding_sendAppend id) _ r

/-- `send_heartbeat`. -/
theorem keepsStanding_sendHeartbeat (r : Raft) (peer : ℕ) (ctx : Bytes) :
    r.KeepsStanding (r.sendHeartbeat peer ctx) := by
  unfold sendHeartbeat
  exact Ensures.bind Ensures.any fun pr _ => r.keepsStanding_send _

/-- `bcast_heartbeat_with_ctx`. -/
theorem keepsStanding_bcastHeartbeatWithCtx (r : Raft) (ctx : Bytes) :
    r.KeepsStanding (r.bcastHeartbeatWithCtx ctx) := by
  unfold bcastHeartbeatWithCtx
  exact keepsStanding_forPeers (fun r id => r.keepsStanding_sendHeartbeat id ctx) _ r

/-- Nothing but the commit index changes. -/
theorem commitTo_standing {l : RaftLog} (k : ℕ) :
    Ensures (l.commitTo k) fun l' => ({ l' with committed := 0 } : RaftLog) = { l with committed := 0 } := by
  unfold RaftLog.commitTo
  refine Ensures.ite (fun _ => ?_) fun _ => Ensures.ok rfl
  exact Ensures.ite (fun _ => Ensures.error) fun _ => Ensures.ok rfl

/-- `maybe_commit`. -/
theorem keepsStanding_maybeCommit (r : Raft) :
    Ensures r.maybeCommit fun q => q.2.standing = r.standing := by
  unfold maybeCommit
  refine Ensures.bind Ensures.any fun mci _ => ?_
  refine Ensures.bind (RaftLog.maybeCommit_cases mci r.term) fun ⟨committed, l⟩ hl => Ensures.pure ?_
  have hlog : ({ l with committed := 0 } : RaftLog) = { r.raftLog with committed := 0 } := by
    obtain ⟨-, heq⟩ | ⟨-, hcommit⟩ := hl
    · exact congrArg (fun l : RaftLog => { l with committed := 0 }) heq
    · exact commitTo_standing mci _ hcommit
  unfold standing
  dsimp only
  rw [hlog]
  rfl

/-! ## The messages -/

/-- What a leader sends when an acknowledgement was news. -/
theorem keepsStanding_commitOnAck (r : Raft) (peer : ℕ) (oldPaused : Bool) :
    r.KeepsStanding (r.commitOnAck peer oldPaused) := by
  unfold commitOnAck
  refine Ensures.bind r.keepsStanding_maybeCommit fun q hq => ?_
  refine Ensures.ite (fun _ => ?_) fun _ => ?_
  · exact q.2.keepsStanding_bcastAppend.mono fun r' hr' => hr'.trans hq
  refine Ensures.ite (fun _ => ?_) fun _ => Ensures.pure hq
  exact (q.2.keepsStanding_sendAppend peer).mono fun r' hr' => hr'.trans hq

/-- What the leader does after an acknowledgement that was news. -/
theorem keepsStanding_sendOnAck (r : Raft) (peer : ℕ) (oldPaused : Bool) :
    r.KeepsStanding (r.sendOnAck peer oldPaused) := by
  unfold sendOnAck
  refine Ensures.bind (r.keepsStanding_commitOnAck peer oldPaused) fun r₁ h₁ => ?_
  refine Ensures.bind (keepsStanding_sendAppendLoop peer _ r₁) fun r₂ h₂ => ?_
  refine Ensures.bind Ensures.any fun pr _ => ?_
  refine Ensures.ite (fun _ => ?_) fun _ => Ensures.pure (h₂.trans h₁)
  unfold sendTimeoutNow
  exact (r₂.keepsStanding_send _).mono fun r' hr' => hr'.trans (h₂.trans h₁)

/-- `step_leader` on the answer to an append. -/
theorem keepsStanding_stepLeaderAppResp {m : Message} (hget : r.getProgress m.fromId = some p) :
    r.KeepsStanding (r.stepLeaderAppResp m p) := by
  have hput : ∀ q : Progress, q.isLearner = p.isLearner → (r.putProgress m.fromId q).standing = r.standing :=
    fun q hq => standing_putProgress hget hq
  unfold stepLeaderAppResp
  dsimp only
  refine Ensures.ite (fun _ => ?_) fun _ => ?_
  · have hflag := (Progress.Extends.maybeDecreasesTo { p with recentActive := true } m.index
      m.rejectHint).isLearner
    generalize Progress.maybeDecreasesTo _ m.index m.rejectHint = q at hflag ⊢
    refine Ensures.ite (fun _ => ?_) fun _ => Ensures.pure (hput _ hflag)
    refine (keepsStanding_sendAppend _ m.fromId).mono fun r' hr' => hr'.trans (hput _ ?_)
    split_ifs
    · exact (Progress.Extends.becomeProbe q.2).isLearner.trans hflag
    · exact hflag
  · have hflag := (Progress.Extends.maybeUpdate { p with recentActive := true } m.index).isLearner
    generalize Progress.maybeUpdate _ m.index = q at hflag ⊢
    refine Ensures.ite (fun _ => ?_) fun _ => Ensures.pure (hput _ hflag)
    refine Ensures.bind (P := fun q' => q'.isLearner = p.isLearner) ?_ fun q' hq' => ?_
    · unfold progressOnAck
      split
      · exact Ensures.ok hflag
      · refine Ensures.ite (fun _ => Ensures.ok ?_) fun _ => Ensures.ok hflag
        exact (Progress.Extends.becomeProbe q.2).isLearner.trans hflag
      · exact Ensures.bind Ensures.any fun f _ => Ensures.pure hflag
    · exact (keepsStanding_sendOnAck _ m.fromId _).mono fun r' hr' => hr'.trans (hput q' hq')

/-- `step_leader` on the answer to a heartbeat. -/
theorem keepsStanding_stepLeaderHeartbeatResp {m : Message} (hget : r.getProgress m.fromId = some p) :
    r.KeepsStanding (r.stepLeaderHeartbeatResp m p) := by
  unfold stepLeaderHeartbeatResp
  refine Ensures.bind (P := fun q => q.isLearner = p.isLearner) ?_ fun q hq => ?_
  · unfold progressOnHeartbeat
    dsimp only
    refine Ensures.ite (fun _ => ?_) fun _ => Ensures.ok rfl
    exact Ensures.bind Ensures.any fun f _ => Ensures.pure rfl
  have hput := standing_putProgress hget hq
  refine Ensures.ite (fun _ => ?_) fun _ => ?_
  · refine Ensures.bind (keepsStanding_sendAppend _ m.fromId) fun r₁ h₁ => ?_
    exact (onlyReads_ackRead m).mono fun r' hr' => hr'.standing.trans (h₁.trans hput)
  · exact (onlyReads_ackRead m).mono fun r' hr' => hr'.standing.trans hput

/-- `step_leader` on the messages that concern the progress of their sender, but for a transfer. -/
theorem keepsStanding_stepLeaderPeer {m : Message} (htype : m.type ≠ .msgTransferLeader) :
    r.KeepsStanding (r.stepLeaderPeer m) := by
  unfold stepLeaderPeer
  cases hget : r.getProgress m.fromId with
  | none => exact Ensures.ok rfl
  | some p =>
    have hput : ∀ q : Progress, q.isLearner = p.isLearner →
        (r.putProgress m.fromId q).standing = r.standing := fun q hq => standing_putProgress hget hq
    dsimp only
    split
    · exact keepsStanding_stepLeaderAppResp hget
    · exact keepsStanding_stepLeaderHeartbeatResp hget
    · refine Ensures.ok ?_
      unfold stepLeaderSnapStatus
      split_ifs
      · rfl
      · exact hput _ (Progress.Extends.becomeProbe p.snapshotFailure).isLearner
      · exact hput _ (Progress.Extends.becomeProbe p).isLearner
    · refine Ensures.ite (fun _ => Ensures.ok ?_) fun _ => Ensures.ok rfl
      exact hput _ (Progress.Extends.becomeProbe p).isLearner
    · next h => exact absurd h htype
    · exact Ensures.ok rfl

/-- `step_leader` on a read request. -/
theorem keepsStanding_stepLeaderReadIndex (r : Raft) (m : Message) :
    r.KeepsStanding (r.stepLeaderReadIndex m) := by
  unfold stepLeaderReadIndex
  refine Ensures.ite (fun _ => ?_) fun _ => Ensures.bind Ensures.any fun ctx _ => Ensures.pure rfl
  split
  · exact Ensures.pure rfl
  · refine Ensures.ite (fun _ => Ensures.pure rfl) fun _ => ?_
    split
    · refine Ensures.bind Ensures.any fun ro _ => ?_
      refine Ensures.bind Ensures.any fun ctx _ => ?_
      exact (keepsStanding_bcastHeartbeatWithCtx _ ctx).mono fun r' hr' => hr'
    · exact (onlyReads_answerRead m _).mono fun r' hr' => hr'.standing

/-- `step_leader`, but for proposals, transfers and checks of the quorum. -/
theorem keepsStanding_stepLeader {m : Message} (hprop : m.type ≠ .msgProp)
    (htransfer : m.type ≠ .msgTransferLeader) (hcheck : m.type ≠ .msgCheckQuorum) :
    Ensures (r.stepLeader m) fun q => q.2.standing = r.standing := by
  unfold stepLeader
  split
  · unfold bcastHeartbeat
    exact Ensures.bind (r.keepsStanding_bcastHeartbeatWithCtx _) fun r' hr' => Ensures.pure hr'
  · next h => exact absurd h hcheck
  · next h => exact absurd h hprop
  · exact Ensures.bind (r.keepsStanding_stepLeaderReadIndex m) fun r' hr' => Ensures.pure hr'
  · exact Ensures.bind (keepsStanding_stepLeaderPeer htransfer) fun r' hr' => Ensures.pure hr'

/-- `step` on a request for a vote. -/
theorem keepsStanding_stepVote (r : Raft) (m : Message) : r.KeepsStanding (r.stepVote m) := by
  unfold stepVote
  refine Ensures.ite (fun _ => Ensures.pure rfl) fun _ => ?_
  refine Ensures.bind Ensures.any fun respType _ => ?_
  refine Ensures.ite (fun _ => ?_) fun _ => r.keepsStanding_send _
  refine Ensures.bind (r.keepsStanding_send _) fun r₁ h₁ => ?_
  exact Ensures.ite (fun _ => Ensures.pure h₁) fun _ => Ensures.pure h₁

/-- `step` on a message of a lower term. -/
theorem keepsStanding_stepLowerTerm (r : Raft) (m : Message) : r.KeepsStanding (r.stepLowerTerm m) := by
  unfold stepLowerTerm
  refine Ensures.ite (fun _ => r.keepsStanding_send _) fun _ => ?_
  refine Ensures.ite (fun _ => r.keepsStanding_send _) fun _ => ?_
  exact Ensures.bind Ensures.any fun _ _ => Ensures.pure rfl

end Raft

end RaftCpp
