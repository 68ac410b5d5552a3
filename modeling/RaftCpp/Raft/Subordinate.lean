import RaftCpp.Raft.Tenure

/-!
# What a node does that does not lead

A node that does not lead obeys: it stays without the lead, sends none of the messages of a leader, and
commits what it is told to commit. Or it wins an election, and goes on as a leader. With the moves of a
leader, this says what a node does on any event.
-/

namespace RaftCpp

open Outcome

/-- A message tells its receiver that the entries up to an index are committed. -/
def Message.Tells (m : Message) (k : ℕ) : Prop :=
  (m.type = .msgApp ∨ m.type = .msgHeartbeat) ∧ k ≤ m.commit ∨
    m.type = .msgSnap ∧ k ≤ m.snapshot.metadata.index

/-- A message that tells of an index tells of those before it. -/
theorem Message.Tells.mono {m : Message} {j k : ℕ} (h : m.Tells k) (hle : j ≤ k) : m.Tells j :=
  h.imp (And.imp_right hle.trans) (And.imp_right hle.trans)

/-- A request to campaign tells nothing. -/
theorem Message.not_tells_hup {m : Message} (h : m.type = .msgHup) (k : ℕ) : ¬m.Tells k := by
  simp [Message.Tells, h]

/-- `maybe_append` commits at most what it is told to. -/
theorem RaftLog.maybeAppend_committed {l : RaftLog} {index logTerm k : ℕ} {es : List Entry} :
    Ensures (l.maybeAppend index logTerm k es) fun p =>
      p.2.committed = l.committed ∨ p.2.committed ≤ k := by
  unfold RaftLog.maybeAppend
  refine Ensures.ite (fun _ => ?_) fun _ => Ensures.pure (Or.inl rfl)
  refine Ensures.bind (P := fun l' => l'.committed = l.committed) ?_ fun l₁ h₁ => ?_
  · unfold RaftLog.appendFrom
    refine Ensures.ite (fun _ => Ensures.ok rfl) fun _ => ?_
    refine Ensures.ite (fun _ => Ensures.error) fun _ => ?_
    exact Ensures.ite (fun _ => Ensures.error) fun _ => RaftLog.append_committed _
  · refine Ensures.bind (RaftLog.commitTo_committed _) fun l₂ h₂ => Ensures.pure ?_
    obtain h₂ | h₂ := h₂
    · exact Or.inl (h₂.trans h₁)
    · exact Or.inr (h₂.2.trans_le (Nat.min_le_left _ _))

namespace Raft

/-- The node knows of no entries that match on another node. -/
structure Unmatched (r : Raft) : Prop where
  /-- The voters. -/
  prs : ∀ y p, y ≠ r.id → r.prs.lookup y = some p → p.matched = 0
  /-- The learners. -/
  learnerPrs : ∀ y p, y ≠ r.id → r.learnerPrs.lookup y = some p → p.matched = 0

/-- What a node does on a message that leaves it without the lead. -/
structure Obeys (m : Message) (r r' : Raft) : Prop where
  /-- The identity. -/
  id : r'.id = r.id
  /-- The node does not lead. -/
  state : r'.state ≠ .leader
  /-- It sends no messages of a leader. -/
  msgs : ∃ ms, r'.msgs = r.msgs ++ ms ∧ ∀ x ∈ ms, isLeaderType x.type = false
  /-- It commits what it is told to. -/
  commit : r.raftLog.committed < r'.raftLog.committed → m.Tells r'.raftLog.committed
  /-- It does not learn what matches on the others, and forgets it when it gives up the lead. -/
  unmatched : (r.state ≠ .leader → r.Unmatched) → r'.Unmatched

/-- A node wins an election, as the candidate `r₁` with its own progress `p`, and goes on as a leader.
The event found the node in the state `s`. -/
def Wins (c : Cause) (s r r' : Raft) : Prop :=
  ∃ (r₁ : Raft) (p : Progress), r₁.id = r.id ∧ r₁.raftLog = r.raftLog ∧ r₁.msgs = r.msgs ∧
    r₁.takeLead.prs.lookup r₁.takeLead.id = some p ∧ LeaderCourse c s (r₁.elected p) r'

variable {m : Message} {c : Cause} {s r r' r'' : Raft}

namespace Obeys

/-- Other things change. -/
theorem of_eq (hstate : r'.state ≠ .leader) (hid : r'.id = r.id) (hmsgs : r'.msgs = r.msgs)
    (hlog : r'.raftLog = r.raftLog) (hun : (r.state ≠ .leader → r.Unmatched) → r'.Unmatched) :
    Obeys m r r' := by
  constructor
  · exact hid
  · exact hstate
  · exact ⟨[], by rw [hmsgs, List.append_nil], nofun⟩
  · intro hlt
    rw [hlog] at hlt
    exact absurd hlt (lt_irrefl _)
  · exact hun

/-- Nothing changes. -/
theorem refl (hstate : r.state ≠ .leader) : Obeys m r r :=
  .of_eq hstate rfl rfl rfl fun hun => hun hstate

/-- One thing after another. -/
theorem trans (h : Obeys m r r') (h' : Obeys m r' r'') : Obeys m r r'' := by
  constructor
  · exact h'.id.trans h.id
  · exact h'.state
  · obtain ⟨ms, hms, hnone⟩ := h.msgs
    obtain ⟨ms', hms', hnone'⟩ := h'.msgs
    refine ⟨ms ++ ms', by rw [hms', hms, List.append_assoc], fun x hx => ?_⟩
    exact (List.mem_append.mp hx).elim (hnone x) (hnone' x)
  · intro hlt
    by_cases hraise : r'.raftLog.committed < r''.raftLog.committed
    · exact h'.commit hraise
    · exact (h.commit (by omega)).mono (by omega)
  · exact fun hun => h'.unmatched fun _ => h.unmatched hun

end Obeys

/-- The election begins where other things have changed. -/
theorem Wins.of_eq {r₁ : Raft} (h : Wins c s r₁ r') (hid : r₁.id = r.id)
    (hlog : r₁.raftLog = r.raftLog) (hmsgs : r₁.msgs = r.msgs) : Wins c s r r' := by
  obtain ⟨r₂, p, hid₂, hlog₂, hmsgs₂, hrest⟩ := h
  exact ⟨r₂, p, hid₂.trans hid, hlog₂.trans hlog, hmsgs₂.trans hmsgs, hrest⟩

/-- The winner leads. -/
theorem Wins.state (h : Wins c s r r') : r'.state = .leader := by
  obtain ⟨r₁, p, -, -, -, -, hleads⟩ := h
  exact hleads.state

/-- After a reset nothing is known to match. -/
theorem unmatched_reset (r : Raft) (t : ℕ) : (r.reset t).Unmatched := by
  have hfresh : ∀ (r₁ : Raft) (q : Progress) (y : ℕ), r₁.id = r.id → y ≠ r.id →
      (r₁.freshProgress y q).matched = 0 := by
    intro r₁ q y hid hy
    unfold freshProgress
    rw [hid]
    exact if_neg hy
  constructor
  · intro y p hy hp
    rw [reset_id] at hy
    simp only [reset, AList.lookup_mapVal] at hp
    obtain ⟨q, -, rfl⟩ := Option.map_eq_some_iff.mp hp
    apply hfresh _ q y _ hy
    split <;> rfl
  · intro y p hy hp
    rw [reset_id] at hy
    simp only [reset, AList.lookup_mapVal] at hp
    obtain ⟨q, -, rfl⟩ := Option.map_eq_some_iff.mp hp
    apply hfresh _ q y _ hy
    split <;> rfl

/-- What matches on the others depends on their progress alone. -/
theorem Unmatched.congr (h : r.Unmatched) (hid : r'.id = r.id) (hprs : r'.prs = r.prs)
    (hlprs : r'.learnerPrs = r.learnerPrs) : r'.Unmatched := by
  constructor
  · intro y p hy hp
    exact h.prs y p (hid ▸ hy) (hprs ▸ hp)
  · intro y p hy hp
    exact h.learnerPrs y p (hid ▸ hy) (hlprs ▸ hp)

/-- A node that follows. -/
theorem obeys_becomeFollower (t lead : ℕ) : Obeys m r (r.becomeFollower t lead) := by
  refine Obeys.of_eq nofun (r.reset_id t) (r.reset_msgs t) (r.reset_raftLog t) fun _ => ?_
  exact (r.unmatched_reset t).congr rfl rfl rfl

/-- A message that is not one of a leader's. -/
theorem obeys_send (hstate : r.state ≠ .leader) {x : Message} (hx : isLeaderType x.type = false) :
    Ensures (r.send x) (Obeys m r) := by
  intro r' h
  obtain ⟨rfl, -⟩ := send_eq h
  have hfill : (r.fillIn x).type = x.type := by
    unfold fillIn
    split_ifs
    · rfl
    · rfl
  constructor
  · rfl
  · exact hstate
  · refine ⟨[r.fillIn x], rfl, fun y hy => ?_⟩
    rw [List.mem_singleton.mp hy, hfill, hx]
  · exact fun hlt => absurd hlt (lt_irrefl _)
  · exact fun hun => (hun hstate).congr rfl rfl rfl

/-- A change of the log. -/
theorem obeys_log (hstate : r.state ≠ .leader) {l : RaftLog}
    (hl : r.raftLog.committed < l.committed → m.Tells l.committed) :
    Obeys m r { r with raftLog := l } := by
  constructor
  · rfl
  · exact hstate
  · exact ⟨[], (List.append_nil _).symm, nofun⟩
  · exact hl
  · exact fun hun => (hun hstate).congr rfl rfl rfl

/-! ## Campaigns -/

/-- The requests for votes. -/
theorem obeys_requestVotes (hstate : r.state ≠ .leader) {voteMsg : MessageType} {term : ℕ}
    {ctx : Bytes} (hvote : isLeaderType voteMsg = false) :
    Ensures (r.requestVotes voteMsg term ctx) (Obeys m r) := by
  unfold requestVotes
  refine Ensures.foldlM _ (fun r₁ id _ h₁ => ?_) r (.refl hstate)
  refine Ensures.ite (fun _ => Ensures.ok h₁) fun _ => ?_
  exact (obeys_send h₁.state hvote).mono fun r₂ h₂ => h₁.trans h₂

/-- `campaign` for the votes of the next term. -/
theorem turns_campaignElection (ctx : Bytes) :
    Ensures (r.campaignElection ctx) fun r' => Obeys m r r' ∨ Wins c s r r' := by
  -- The candidate that has voted for itself.
  have hcand : ∀ (r₁ : Raft) (granted : ℕ), r₁.id = r.id → r₁.raftLog = r.raftLog →
      r₁.msgs = r.msgs → Obeys m r r₁ →
      Ensures (if r₁.quorum = granted then r₁.becomeLeader else r₁.requestVotes .msgVote r₁.term ctx)
        fun r' => Obeys m r r' ∨ Wins c s r r' := by
    intro r₁ granted hid hlog hmsgs h₁
    refine Ensures.ite (fun _ => ?_) fun _ => ?_
    · refine (leads_becomeLeader (c := c) (s := s)).mono fun r' hr' => Or.inr ?_
      obtain ⟨p, hself, hleads⟩ := hr'
      exact ⟨r₁, p, hid, hlog, hmsgs, hself, hleads⟩
    · exact (obeys_requestVotes h₁.state rfl).mono fun r' hr' => Or.inl (h₁.trans hr')
  unfold campaignElection becomeCandidate
  refine Ensures.bind (P := fun r₁ =>
    r₁ = { r.reset (r.term + 1) with vote := r.id, state := .candidate }) ?_ ?_
  · exact Ensures.ite (fun _ => Ensures.error) fun _ => Ensures.ok rfl
  rintro r₁ rfl
  apply hcand
  · exact r.reset_id _
  · exact r.reset_raftLog _
  · exact r.reset_msgs _
  · refine Obeys.of_eq nofun (r.reset_id _) (r.reset_msgs _) (r.reset_raftLog _) fun _ => ?_
    exact (r.unmatched_reset (r.term + 1)).congr rfl rfl rfl

/-- `campaign` for pre-votes. -/
theorem turns_campaignPreElection :
    Ensures r.campaignPreElection fun r' => Obeys m r r' ∨ Wins c s r r' := by
  have hpre : ∀ (r₁ : Raft) (granted : ℕ), r₁.id = r.id → r₁.raftLog = r.raftLog →
      r₁.msgs = r.msgs → Obeys m r r₁ →
      Ensures (if r₁.quorum = granted then r₁.campaignElection []
        else r₁.requestVotes .msgPreVote (r₁.term + 1) [])
        fun r' => Obeys m r r' ∨ Wins c s r r' := by
    intro r₁ granted hid hlog hmsgs h₁
    refine Ensures.ite (fun _ => ?_) fun _ => ?_
    · refine (turns_campaignElection (m := m) (c := c) (s := s) []).mono fun r' hr' => ?_
      exact hr'.imp h₁.trans fun hwins => hwins.of_eq hid hlog hmsgs
    · exact (obeys_requestVotes h₁.state rfl).mono fun r' hr' => Or.inl (h₁.trans hr')
  unfold campaignPreElection becomePreCandidate
  refine Ensures.bind (P := fun r₁ => r.state ≠ .leader ∧
    r₁ = { r with votes := ∅, lead := 0, state := .preCandidate }) ?_ ?_
  · exact Ensures.ite (fun _ => Ensures.error) fun hne => Ensures.ok ⟨hne, rfl⟩
  rintro r₁ ⟨hstate, rfl⟩
  apply hpre
  · rfl
  · rfl
  · rfl
  · exact Obeys.of_eq nofun rfl rfl rfl fun hun => (hun hstate).congr rfl rfl rfl

/-- `step` on a request to campaign. -/
theorem turns_stepHup (hstate : r.state ≠ .leader) :
    Ensures r.stepHup fun r' => Obeys m r r' ∨ Wins c s r r' := by
  unfold stepHup
  rw [if_neg hstate]
  refine Ensures.bind Ensures.any fun p _ => ?_
  dsimp only
  refine Ensures.ite (fun _ => Ensures.error) fun _ => ?_
  refine Ensures.ite (fun _ => Ensures.pure (Or.inl (.refl hstate))) fun _ => ?_
  cases r.preVote with
  | true => exact turns_campaignPreElection
  | false => exact turns_campaignElection []

/-- `step` on a request for a vote. -/
theorem obeys_stepVote (hstate : r.state ≠ .leader) : Ensures (r.stepVote m) (Obeys m r) := by
  unfold stepVote
  refine Ensures.ite (fun _ => Ensures.pure (.refl hstate)) fun _ => ?_
  refine Ensures.bind (P := fun t => isLeaderType t = false) ?_ fun respType hresp => ?_
  · unfold voteRespMsgType
    split
    · exact Ensures.ok rfl
    · exact Ensures.ok rfl
    · exact Ensures.error
  refine Ensures.ite (fun _ => ?_) fun _ => obeys_send hstate hresp
  refine Ensures.bind (obeys_send (m := m) hstate hresp) fun r₁ h₁ => ?_
  refine Ensures.ite (fun _ => Ensures.pure ?_) fun _ => Ensures.pure h₁
  exact h₁.trans (.of_eq h₁.state rfl rfl rfl fun hun => (hun h₁.state).congr rfl rfl rfl)

/-! ## The messages of a leader -/

/-- `handle_append_entries`. -/
theorem obeys_handleAppendEntries (hstate : r.state ≠ .leader) (htype : m.type = .msgApp) :
    Ensures (r.handleAppendEntries m) (Obeys m r) := by
  unfold handleAppendEntries
  refine Ensures.ite (fun _ => obeys_send hstate rfl) fun _ => ?_
  refine Ensures.bindEq fun ⟨last, l⟩ hl => ?_
  have hlog : Obeys m r { r with raftLog := l } := by
    refine obeys_log hstate fun hlt => Or.inl ⟨Or.inl htype, ?_⟩
    exact (RaftLog.maybeAppend_committed _ hl).resolve_left (Nat.ne_of_gt hlt)
  dsimp only
  split
  · exact (obeys_send hlog.state rfl).mono fun r' hr' => hlog.trans hr'
  · exact (obeys_send hlog.state rfl).mono fun r' hr' => hlog.trans hr'

/-- `handle_heartbeat`. -/
theorem obeys_handleHeartbeat (hstate : r.state ≠ .leader) (htype : m.type = .msgHeartbeat) :
    Ensures (r.handleHeartbeat m) (Obeys m r) := by
  unfold handleHeartbeat
  refine Ensures.bind (RaftLog.commitTo_committed m.commit) fun l hl => ?_
  have hlog : Obeys m r { r with raftLog := l } := by
    refine obeys_log hstate fun hlt => Or.inl ⟨Or.inr htype, ?_⟩
    exact Nat.le_of_eq (hl.resolve_left (Nat.ne_of_gt hlt)).2
  exact (obeys_send hlog.state rfl).mono fun r' hr' => hlog.trans hr'

/-- `set_progress` of a node of which nothing is known to match. -/
theorem obeys_setProgress (hstate : r.state ≠ .leader) {id matched next : ℕ} {isLearner : Bool}
    (hzero : id ≠ r.id → matched = 0) :
    Ensures (r.setProgress id matched next isLearner) (Obeys m r) := by
  have hins : ∀ (prs : AList fun _ : ℕ => Progress) (p : Progress), p.matched = matched →
      (∀ y q, y ≠ r.id → prs.lookup y = some q → q.matched = 0) →
      ∀ y q, y ≠ r.id → (prs.insert id p).lookup y = some q → q.matched = 0 := by
    intro prs p hp hprs y q hy hq
    rw [AList.lookup_insert_eq] at hq
    split_ifs at hq with heq
    · cases hq
      exact hp.trans (hzero (heq ▸ hy))
    · exact hprs y q hy hq
  unfold setProgress
  dsimp only
  refine Ensures.ite (fun _ => Ensures.ok (.of_eq hstate rfl rfl rfl fun hun => ⟨?_, ?_⟩)) fun _ => ?_
  · exact hins _ _ rfl (hun hstate).prs
  · intro y q hy hq
    by_cases heq : y = id
    · rw [heq, AList.lookup_erase] at hq
      cases hq
    · rw [AList.lookup_erase_ne heq] at hq
      exact (hun hstate).learnerPrs y q hy hq
  · refine Ensures.ite (fun _ => Ensures.error) fun _ => Ensures.ok ?_
    refine .of_eq hstate rfl rfl rfl fun hun => ⟨(hun hstate).prs, ?_⟩
    exact hins _ _ rfl (hun hstate).learnerPrs

/-- `restore_node`. -/
theorem obeys_restoreNode (hstate : r.state ≠ .leader) (nodes : List ℕ) (isLearner : Bool) :
    Ensures (r.restoreNode nodes isLearner) (Obeys m r) := by
  unfold restoreNode
  refine Ensures.foldlM nodes (fun r₁ node _ h₁ => ?_) r (.refl hstate)
  have hrole : Obeys m r (if node = r₁.id then { r₁ with isLearner := isLearner } else r₁) := by
    split_ifs
    · exact h₁.trans (.of_eq h₁.state rfl rfl rfl fun hun => (hun h₁.state).congr rfl rfl rfl)
    · exact h₁
  have hid : (if node = r₁.id then { r₁ with isLearner := isLearner } else r₁).id = r₁.id := by
    split_ifs <;> rfl
  dsimp only
  generalize (if node = r₁.id then { r₁ with isLearner := isLearner } else r₁) = r₂ at hrole hid ⊢
  rw [← hid]
  refine Ensures.bind (obeys_setProgress (m := m) hrole.state fun hne => if_neg hne) fun r₃ h₃ => ?_
  exact Ensures.bind Ensures.any fun _ _ => Ensures.pure (hrole.trans h₃)

/-- `restore`. -/
theorem obeys_restore (hstate : r.state ≠ .leader) (htype : m.type = .msgSnap) :
    Ensures (r.restore m.snapshot) fun p => Obeys m r p.2 := by
  unfold restore
  refine Ensures.ite (fun _ => Ensures.pure (.refl hstate)) fun _ => ?_
  refine Ensures.ite (fun _ => ?_) fun _ => ?_
  · refine Ensures.bind (RaftLog.commitTo_committed _) fun l hl => Ensures.pure ?_
    refine obeys_log hstate fun hlt => Or.inr ⟨htype, ?_⟩
    exact Nat.le_of_eq (hl.resolve_left (Nat.ne_of_gt hlt)).2
  refine Ensures.ite (fun _ => Ensures.pure (.refl hstate)) fun _ => ?_
  have hlog : Obeys m r { r with raftLog := r.raftLog.restore m.snapshot, prs := ∅, learnerPrs := ∅ } := by
    constructor
    · rfl
    · exact hstate
    · exact ⟨[], (List.append_nil _).symm, nofun⟩
    · exact fun _ => Or.inr ⟨htype, le_refl _⟩
    · exact fun _ => ⟨nofun, nofun⟩
  refine Ensures.bind (obeys_restoreNode (m := m) hlog.state _ _) fun r₁ h₁ => ?_
  refine Ensures.bind (obeys_restoreNode (m := m) h₁.state _ _) fun r₂ h₂ => Ensures.pure ?_
  exact hlog.trans (h₁.trans h₂)

/-- `handle_snapshot`. -/
theorem obeys_handleSnapshot (hstate : r.state ≠ .leader) (htype : m.type = .msgSnap) :
    Ensures (r.handleSnapshot m) (Obeys m r) := by
  unfold handleSnapshot
  refine Ensures.bind (obeys_restore (m := m) hstate htype) fun p hp => ?_
  exact (obeys_send hp.state rfl).mono fun r' hr' => hp.trans hr'

/-! ## Stepping -/

/-- `step_candidate` on the answer to a request for a vote or a pre-vote. -/
theorem turns_stepCandidateVoteResp (hstate : r.state ≠ .leader) :
    Ensures (r.stepCandidateVoteResp m) fun r' => Obeys m r r' ∨ Wins c s r r' := by
  unfold stepCandidateVoteResp
  have hpoll : Obeys m r (r.poll m.fromId (!m.reject)).2 :=
    .of_eq hstate rfl rfl rfl fun hun => (hun hstate).congr rfl rfl rfl
  dsimp only
  refine Ensures.ite (fun _ => ?_) fun _ => ?_
  · refine Ensures.ite (fun _ => ?_) fun _ => ?_
    · refine (turns_campaignElection (m := m) (c := c) (s := s) []).mono fun r' hr' => ?_
      exact hr'.imp hpoll.trans fun hwins => hwins.of_eq rfl rfl rfl
    refine Ensures.ite (fun _ => ?_) fun _ => Ensures.error
    refine Ensures.bind (leads_becomeLeader (c := c) (s := s)) fun r₁ h₁ => ?_
    obtain ⟨p, hself, hleads⟩ := h₁
    refine (leads_bcastAppend (c := c) (s := s) (Or.inl hleads.state)).mono fun r' hr' => Or.inr ?_
    exact ⟨(r.poll m.fromId (!m.reject)).2, p, rfl, rfl, rfl, hself, hleads.trans hr'⟩
  · refine Ensures.ite (fun _ => Ensures.pure (Or.inl ?_)) fun _ => Ensures.pure (Or.inl hpoll)
    exact hpoll.trans (obeys_becomeFollower _ _)

/-- `step_candidate` on anything else. -/
theorem obeys_stepCandidate (hstate : r.state ≠ .leader) (hvote : m.type ≠ .msgVoteResp)
    (hpre : m.type ≠ .msgPreVoteResp) : Ensures (r.stepCandidate m) fun q => Obeys m r q.2 := by
  have hfollow : Obeys m r (r.becomeFollower m.term m.fromId) := obeys_becomeFollower _ _
  unfold stepCandidate
  cases htype : m.type with
  | msgApp =>
    refine Ensures.bind (obeys_handleAppendEntries hfollow.state htype) fun r' hr' => Ensures.pure ?_
    exact hfollow.trans hr'
  | msgHeartbeat =>
    refine Ensures.bind (obeys_handleHeartbeat hfollow.state htype) fun r' hr' => Ensures.pure ?_
    exact hfollow.trans hr'
  | msgSnap =>
    refine Ensures.bind (obeys_handleSnapshot hfollow.state htype) fun r' hr' => Ensures.pure ?_
    exact hfollow.trans hr'
  | msgVoteResp => exact absurd htype hvote
  | msgPreVoteResp => exact absurd htype hpre
  | _ => exact Ensures.pure (.refl hstate)

/-- `step_candidate` on such an answer. -/
theorem stepCandidate_voteResp (r : Raft) (h : m.type = .msgVoteResp ∨ m.type = .msgPreVoteResp) :
    r.stepCandidate m = (do
      let r' ← r.stepCandidateVoteResp m
      return (.ok, r')) := by
  unfold stepCandidate
  obtain htype | htype := h
  · simp only [htype]
  · simp only [htype]

/-- `step_candidate`. -/
theorem turns_stepCandidate (hstate : r.state ≠ .leader) :
    Ensures (r.stepCandidate m) fun q => Obeys m r q.2 ∨ Wins c s r q.2 := by
  by_cases hresp : m.type = .msgVoteResp ∨ m.type = .msgPreVoteResp
  · rw [r.stepCandidate_voteResp hresp]
    exact Ensures.bind (turns_stepCandidateVoteResp (c := c) (s := s) hstate) fun r' hr' =>
      Ensures.pure hr'
  · obtain ⟨hvote, hpre⟩ := not_or.mp hresp
    exact (obeys_stepCandidate hstate hvote hpre).mono fun q hq => Or.inl hq

/-- `step_follower` on anything but a request to take over. -/
theorem obeys_stepFollower (hstate : r.state ≠ .leader) (htimeout : m.type ≠ .msgTimeoutNow) :
    Ensures (r.stepFollower m) fun q => Obeys m r q.2 := by
  have hheard : Obeys m r { r with electionElapsed := 0, lead := m.fromId } :=
    .of_eq hstate rfl rfl rfl fun hun => (hun hstate).congr rfl rfl rfl
  have hsame : ∀ {st : Status}, Ensures (Pure.pure (st, r) : Result (Status × Raft))
      fun q => Obeys m r q.2 := Ensures.pure (.refl hstate)
  have hforward : ∀ x : Message, isLeaderType x.type = false →
      Ensures (do
        let r' ← r.send x
        return (Status.ok, r')) fun q => Obeys m r q.2 := fun x hx =>
    Ensures.bind (obeys_send (m := m) hstate hx) fun r' hr' => Ensures.pure hr'
  unfold stepFollower
  cases htype : m.type with
  | msgProp =>
    refine Ensures.ite (fun _ => hsame) fun _ => ?_
    exact Ensures.ite (fun _ => hsame) fun _ => hforward _ rfl
  | msgApp =>
    refine Ensures.bind (obeys_handleAppendEntries hheard.state htype) fun r' hr' => Ensures.pure ?_
    exact hheard.trans hr'
  | msgHeartbeat =>
    refine Ensures.bind (obeys_handleHeartbeat hheard.state htype) fun r' hr' => Ensures.pure ?_
    exact hheard.trans hr'
  | msgSnap =>
    refine Ensures.bind (obeys_handleSnapshot hheard.state htype) fun r' hr' => Ensures.pure ?_
    exact hheard.trans hr'
  | msgTransferLeader | msgReadIndex => exact Ensures.ite (fun _ => hsame) fun _ => hforward _ rfl
  | msgTimeoutNow => exact absurd htype htimeout
  | msgReadIndexResp =>
    refine Ensures.pure ?_
    unfold stepFollowerReadIndexResp
    split
    · exact .of_eq hstate rfl rfl rfl fun hun => (hun hstate).congr rfl rfl rfl
    · exact .refl hstate
  | _ => exact hsame

/-- `step_follower`. -/
theorem turns_stepFollower (hstate : r.state ≠ .leader) :
    Ensures (r.stepFollower m) fun q => Obeys m r q.2 ∨ Wins c s r q.2 := by
  by_cases htimeout : m.type = .msgTimeoutNow
  · unfold stepFollower
    simp only [htimeout]
    refine Ensures.ite (fun _ => ?_) fun _ => Ensures.pure (Or.inl (.refl hstate))
    exact Ensures.bind (turns_campaignElection (c := c) (s := s) _) fun r' hr' => Ensures.pure hr'
  · exact (obeys_stepFollower hstate htimeout).mono fun q hq => Or.inl hq

/-- `step` past the check of the term. -/
theorem turns_stepBody (hstate : r.state ≠ .leader) :
    Ensures (r.stepBody m) fun q => Obeys m r q.2 ∨ Wins c s r q.2 := by
  have hrole : Ensures (r.stepRole m) fun q => Obeys m r q.2 ∨ Wins c s r q.2 := by
    unfold stepRole
    split
    · next hl => exact absurd hl hstate
    · exact turns_stepCandidate hstate
    · exact turns_stepCandidate hstate
    · exact turns_stepFollower hstate
  unfold stepBody
  split
  · exact Ensures.bind (turns_stepHup (m := m) (c := c) (s := s) hstate) fun r' hr' => Ensures.pure hr'
  · exact Ensures.bind (obeys_stepVote (m := m) hstate) fun r' hr' => Ensures.pure (Or.inl hr')
  · exact Ensures.bind (obeys_stepVote (m := m) hstate) fun r' hr' => Ensures.pure (Or.inl hr')
  · exact hrole

/-- What can happen to a node on an event. -/
inductive Turns (c : Cause) (r : Raft) : Raft → Prop
  /-- It leads, and goes on to lead its term. -/
  | leads {r' : Raft} (hl : r.state = .leader) (h : LeaderCourse c r r r') : Turns c r r'
  /-- It obeys. -/
  | obeys {r' : Raft} (m : Message) (hm : c = .step m ∨ ∀ k, ¬m.Tells k) (h : Obeys m r r') : Turns c r r'
  /-- It wins an election. -/
  | wins {r' : Raft} (h : Wins c r r r') : Turns c r r'

/-- Nothing happens. -/
theorem Turns.refl (c : Cause) (r : Raft) : Turns c r r := by
  by_cases hl : r.state = .leader
  · exact Turns.leads hl .refl
  · exact Turns.obeys { type := .msgHup } (Or.inr (Message.not_tells_hup rfl)) (.refl hl)

/-- `step`. -/
theorem turns_step : Ensures (r.step m) fun q => Turns (.step m) r q.2 := by
  have hobeys : ∀ {r'}, Obeys m r r' → Turns (.step m) r r' := Turns.obeys m (Or.inl rfl)
  apply step_ensures
  · by_cases hl : r.state = .leader
    · refine (leads_stepBody hl m).mono fun q hq => ?_
      obtain hleads | heq := hq
      · exact Turns.leads hl hleads
      · rw [heq]
        exact hobeys (obeys_becomeFollower _ _)
    · exact (turns_stepBody hl).mono fun q hq => hq.elim hobeys Turns.wins
  · intro lead _ _
    have hfollow : Obeys m r (r.becomeFollower m.term lead) := obeys_becomeFollower _ _
    refine (turns_stepBody (c := .step m) (s := r) hfollow.state).mono fun q hq => ?_
    obtain hq | hwins := hq
    · exact hobeys (hfollow.trans hq)
    · exact Turns.wins (hwins.of_eq (r.reset_id _) (r.reset_raftLog _) (r.reset_msgs _))
  · exact Turns.refl _ r
  · by_cases hl : r.state = .leader
    · exact (leads_stepLowerTerm m).mono fun r' hr' => Turns.leads hl hr'
    · refine Ensures.mono ?_ fun r' hr' => hobeys hr'
      unfold stepLowerTerm
      refine Ensures.ite (fun _ => obeys_send hl rfl) fun _ => ?_
      refine Ensures.ite (fun _ => obeys_send hl rfl) fun _ => ?_
      exact Ensures.bind Ensures.any fun _ _ => Ensures.pure (.refl hl)

/-- `tick_election`. -/
theorem turns_tickElection (hstate : r.state ≠ .leader) : Ensures r.tickElection (Turns .tick r) := by
  have hobeys : ∀ {r'}, Obeys { fromId := r.id, type := .msgHup } r r' → Turns .tick r r' :=
    Turns.obeys _ (Or.inr (Message.not_tells_hup rfl))
  have hticked : ∀ n, Obeys { fromId := r.id, type := .msgHup } r { r with electionElapsed := n } :=
    fun n => .of_eq hstate rfl rfl rfl fun hun => (hun hstate).congr rfl rfl rfl
  unfold tickElection
  refine Ensures.ite (fun _ => ?_) fun _ => Ensures.pure (hobeys (hticked _))
  unfold step
  rw [if_pos rfl]
  refine Ensures.bind (turns_stepBody (c := .tick) (s := r) (hticked 0).state) fun q hq => Ensures.pure ?_
  obtain hq | hwins := hq
  · exact hobeys ((hticked 0).trans hq)
  · exact Turns.wins (hwins.of_eq rfl rfl rfl)

/-- `tick`. -/
theorem turns_tick : Ensures r.tick (Turns .tick r) := by
  by_cases hl : r.state = .leader
  · refine (leads_tick hl).mono fun r' hr' => ?_
    obtain hleads | ⟨heartbeat, election, rfl⟩ := hr'
    · exact Turns.leads hl hleads
    · refine Turns.obeys { type := .msgHup } (Or.inr (Message.not_tells_hup rfl)) ?_
      refine Obeys.of_eq nofun (reset_id _ _) (reset_msgs _ _) (reset_raftLog _ _) fun _ => ?_
      exact (unmatched_reset _ _).congr rfl rfl rfl
  · unfold tick
    split
    · next h => exact absurd h hl
    · exact turns_tickElection hl

end Raft

namespace Host

variable {h h' : Host} {e : HostEvent} {c : Cause}

/-- What happens to the node on a message or a tick. -/
theorem turns_handle (hc : e.cause = some c) (hne : c ≠ .confChange) (hh : h.handle e = .ok h') :
    Raft.Turns c h.node.raft h'.node.raft := by
  have hstep : ∀ {m : Message} {p : Status × RawNode}, h.node.stepRaft m = .ok p →
      Raft.Turns (.step m) h.node.raft p.2.raft := fun hp => by
    obtain ⟨q, hq, hp⟩ := bind_eq_ok.mp hp
    cases hp
    exact Raft.turns_step q hq
  cases e with
  | step m =>
    cases hc
    obtain ⟨p, hp, hh⟩ := bind_eq_ok.mp hh
    cases hh
    unfold RawNode.step at hp
    split_ifs at hp
    · cases hp
      exact Raft.Turns.refl _ _
    · exact hstep hp
    · cases hp
      exact Raft.Turns.refl _ _
  | call m =>
    cases hc
    obtain ⟨p, hp, hh⟩ := bind_eq_ok.mp hh
    cases hh
    exact hstep hp
  | tick =>
    cases hc
    obtain ⟨n, hn, hh⟩ := bind_eq_ok.mp hh
    cases hh
    obtain ⟨r, hr, hn⟩ := bind_eq_ok.mp hn
    cases hn
    exact Raft.turns_tick r hr
  | applyConfChange cc =>
    cases hc
    exact absurd rfl hne
  | _ => cases hc

end Host

end RaftCpp
