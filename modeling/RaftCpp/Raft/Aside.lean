import RaftCpp.Raft.Membership
import RaftCpp.Raft.Standing
import RaftCpp.Raft.Tenure

/-!
# What a node does to its members

A node changes its members when its application changes them, and when it installs a snapshot. Nothing else
that it does, in any role, makes a voter of a learner or a learner of a voter, or forgets one. A node that does
not lead starts no transfer of the lead.
-/

namespace RaftCpp

open Outcome

/-- The members after a snapshot with a configuration is installed. -/
def Roster.enrolled (M : Roster) (cs : ConfState) : Roster where
  id := M.id
  isLearner := if M.id ∈ cs.learners then true else if M.id ∈ cs.nodes then false else M.isLearner
  voters y := if y ∈ cs.nodes then some false else none
  learners y := if y ∈ cs.learners then some true else none

/-- A snapshot is installed: none of its learners is a voter, and unless it has no members, the node is
one of them. -/
structure Roster.Enrolls (M : Roster) (cs : ConfState) (M' : Roster) : Prop where
  eq : M' = M.enrolled cs
  disjoint : ∀ y ∈ cs.learners, y ∉ cs.nodes
  member : cs.nodes = [] ∧ cs.learners = [] ∨ M.id ∈ cs.nodes ∨ M.id ∈ cs.learners

namespace Raft

variable {r r' r'' : Raft} {m : Message}

/-- Nothing is done to the members, and no transfer is started. -/
structure Aside (r r' : Raft) : Prop where
  roster : r'.roster = r.roster
  idle : r.leadTransferee = 0 → r'.leadTransferee = 0

/-- The snapshot is ahead of what is committed, and the log does not have its last entry. -/
def Lacks (r : Raft) (s : Snapshot) : Prop :=
  r.raftLog.committed < s.metadata.index ∧ r.raftLog.matchTerm s.metadata.index s.metadata.term = false

instance (r : Raft) (s : Snapshot) : Decidable (r.Lacks s) := inferInstanceAs (Decidable (_ ∧ _))

/-- The message does nothing to the members, or it is a snapshot that is installed. No transfer is started. -/
structure Takes (m : Message) (r r' : Raft) : Prop where
  roster : r'.roster = r.roster ∨
    m.type = .msgSnap ∧ r.Lacks m.snapshot ∧ r.roster.Enrolls m.snapshot.metadata.confState r'.roster
  idle : r.leadTransferee = 0 → r'.leadTransferee = 0

namespace Aside

/-- Nothing happens. -/
theorem refl (r : Raft) : Aside r r := ⟨rfl, fun h => h⟩

/-- One thing after another. -/
theorem trans (h : Aside r r') (h' : Aside r' r'') : Aside r r'' :=
  ⟨h'.roster.trans h.roster, fun hidle => h'.idle (h.idle hidle)⟩

/-- What a leader's handlers do. -/
theorem of_standing (h : r'.standing = r.standing) : Aside r r' :=
  ⟨congrArg Standing.roster h, fun hidle => (congrArg Standing.leadTransferee h).trans hidle⟩

/-- A message that does nothing to the members. -/
theorem takes (h : Aside r r') : Takes m r r' := ⟨Or.inl h.roster, h.idle⟩

/-- Something else before a message, that leaves the log alone. -/
theorem trans_takes (h : Aside r r') (hlog : r'.raftLog = r.raftLog) (h' : Takes m r' r'') :
    Takes m r r'' := by
  constructor
  · have hroster := h'.roster
    rw [h.roster, Lacks, hlog] at hroster
    exact hroster
  · exact fun hidle => h'.idle (h.idle hidle)

end Aside

/-- Something else after a message. -/
theorem Takes.trans_aside (h : Takes m r r') (h' : Aside r' r'') : Takes m r r'' := by
  constructor
  · rw [h'.roster]
    exact h.roster
  · exact fun hidle => h'.idle (h.idle hidle)

/-! ## Roles -/

/-- A reset keeps the flags of the peers. -/
theorem roster_reset (r : Raft) (t : ℕ) : (r.reset t).roster = r.roster := by
  have hflags : ∀ (r₁ : Raft) (prs : AList fun _ : ℕ => Progress) (y : ℕ),
      ((prs.mapVal r₁.freshProgress).lookup y).map (·.isLearner) = (prs.lookup y).map (·.isLearner) := by
    intro r₁ prs y
    rw [AList.lookup_mapVal]
    cases prs.lookup y with
    | none => rfl
    | some p => rfl
  unfold roster reset
  dsimp only
  split_ifs
  · simp only [hflags]
    rfl
  · simp only [hflags]
    rfl

/-- A reset ends a transfer. -/
theorem aside_reset (r : Raft) (t : ℕ) : Aside r (r.reset t) := ⟨r.roster_reset t, fun _ => rfl⟩

/-- A node that follows. -/
theorem aside_becomeFollower (r : Raft) (t lead : ℕ) : Aside r (r.becomeFollower t lead) :=
  ⟨r.roster_reset t, fun _ => rfl⟩

/-- `append_entry`. -/
theorem aside_appendEntry (r : Raft) (es : List Entry) :
    Ensures (r.appendEntry es) fun q => Aside r q.2 := by
  unfold appendEntry
  dsimp only
  cases hinc : r.increaseUncommittedSize (stampEntries r.term (r.raftLog.lastIndex + 1) es) with
  | none => exact Ensures.pure (.refl r)
  | some r₁ =>
    obtain ⟨n, rfl⟩ := increaseUncommittedSize_eq hinc
    refine Ensures.bind Ensures.any fun l _ => ?_
    refine Ensures.bind peerProgress_eq fun pr hget => ?_
    have hput := standing_putProgress hget
      (Progress.Extends.maybeUpdate pr (RaftLog.lastIndex l)).isLearner
    refine Ensures.bind (keepsStanding_maybeCommit _) fun q hq => Ensures.pure ?_
    have happ : Aside r { r with uncommittedSize := n, raftLog := l } := ⟨rfl, fun h => h⟩
    exact happ.trans (.of_standing (hq.trans hput))

/-- `become_leader`. -/
theorem aside_becomeLeader (r : Raft) : Ensures r.becomeLeader (Aside r) := by
  unfold becomeLeader
  refine Ensures.ite (fun _ => Ensures.error) fun _ => ?_
  dsimp only
  split
  · exact Ensures.error
  · next p hself =>
    have htake : Aside r r.takeLead := ⟨r.roster_reset r.term, fun _ => rfl⟩
    have hget : r.takeLead.getProgress r.takeLead.id = some p := by
      rw [getProgress, hself, Option.some_or]
    have hmem : r.takeLead.id ∈ r.takeLead.prs := by
      rw [← AList.lookup_isSome, hself]
      rfl
    have hput : Aside r.takeLead (r.elected p) := by
      have hroster : (r.takeLead.putProgress r.takeLead.id p.becomeReplicate).roster = r.takeLead.roster :=
        roster_putProgress hget rfl
      rw [putProgress, if_pos hmem] at hroster
      exact ⟨hroster, fun h => h⟩
    refine Ensures.bind ((r.elected p).aside_appendEntry [{}]) fun q hq => ?_
    refine Ensures.ite (fun _ => Ensures.error) fun _ => Ensures.pure ?_
    obtain ⟨size, hsize⟩ := q.2.reduceUncommittedSize_eq [{}]
    rw [hsize]
    exact (htake.trans hput).trans ⟨hq.roster, hq.idle⟩

/-! ## Campaigns -/

/-- Something is sent. -/
theorem aside_send (r : Raft) (x : Message) : Ensures (r.send x) (Aside r) :=
  (r.keepsStanding_send x).mono fun _ h => .of_standing h

/-- The requests for votes. -/
theorem aside_requestVotes (r : Raft) (voteMsg : MessageType) (term : ℕ) (ctx : Bytes) :
    Ensures (r.requestVotes voteMsg term ctx) (Aside r) := by
  unfold requestVotes
  refine Ensures.foldlM _ (fun r₁ id _ h₁ => ?_) r (.refl r)
  refine Ensures.ite (fun _ => Ensures.ok h₁) fun _ => ?_
  exact (r₁.aside_send _).mono fun r₂ h₂ => h₁.trans h₂

/-- `campaign` for the votes of the next term. -/
theorem aside_campaignElection (r : Raft) (ctx : Bytes) : Ensures (r.campaignElection ctx) (Aside r) := by
  unfold campaignElection becomeCandidate
  refine Ensures.bind (P := Aside r) ?_ fun r₁ h₁ => ?_
  · refine Ensures.ite (fun _ => Ensures.error) fun _ => Ensures.ok ?_
    exact ⟨r.roster_reset (r.term + 1), fun _ => rfl⟩
  have hpoll : Aside r (r₁.poll r₁.id true).2 := h₁.trans ⟨rfl, fun h => h⟩
  refine Ensures.ite (fun _ => ?_) fun _ => ?_
  · exact (aside_becomeLeader _).mono fun r' hr' => hpoll.trans hr'
  · exact (aside_requestVotes _ _ _ _).mono fun r' hr' => hpoll.trans hr'

/-- `campaign` for pre-votes. -/
theorem aside_campaignPreElection (r : Raft) : Ensures r.campaignPreElection (Aside r) := by
  unfold campaignPreElection becomePreCandidate
  refine Ensures.bind (P := Aside r) ?_ fun r₁ h₁ => ?_
  · exact Ensures.ite (fun _ => Ensures.error) fun _ => Ensures.ok ⟨rfl, fun h => h⟩
  have hpoll : Aside r (r₁.poll r₁.id true).2 := h₁.trans ⟨rfl, fun h => h⟩
  refine Ensures.ite (fun _ => ?_) fun _ => ?_
  · exact (aside_campaignElection _ []).mono fun r' hr' => hpoll.trans hr'
  · exact (aside_requestVotes _ _ _ _).mono fun r' hr' => hpoll.trans hr'

/-- `step` on a request to campaign. -/
theorem aside_stepHup (r : Raft) : Ensures r.stepHup (Aside r) := by
  unfold stepHup
  refine Ensures.ite (fun _ => Ensures.pure (.refl r)) fun _ => ?_
  refine Ensures.bind Ensures.any fun p _ => ?_
  dsimp only
  refine Ensures.ite (fun _ => Ensures.error) fun _ => ?_
  refine Ensures.ite (fun _ => Ensures.pure (.refl r)) fun _ => ?_
  cases r.preVote with
  | true => exact r.aside_campaignPreElection
  | false => exact r.aside_campaignElection []

/-- `step` on a request for a vote. -/
theorem aside_stepVote (r : Raft) (m : Message) : Ensures (r.stepVote m) (Aside r) :=
  (r.keepsStanding_stepVote m).mono fun _ h => .of_standing h

/-! ## The messages of a leader -/

/-- `handle_append_entries`. -/
theorem aside_handleAppendEntries (r : Raft) (m : Message) :
    Ensures (r.handleAppendEntries m) (Aside r) := by
  unfold handleAppendEntries
  refine Ensures.ite (fun _ => r.aside_send _) fun _ => ?_
  refine Ensures.bind Ensures.any fun ⟨last, l⟩ _ => ?_
  have hlog : Aside r { r with raftLog := l } := ⟨rfl, fun h => h⟩
  dsimp only
  split
  · exact (aside_send _ _).mono fun r' hr' => hlog.trans hr'
  · exact (aside_send _ _).mono fun r' hr' => hlog.trans hr'

/-- `handle_heartbeat`. -/
theorem aside_handleHeartbeat (r : Raft) (m : Message) : Ensures (r.handleHeartbeat m) (Aside r) := by
  unfold handleHeartbeat
  refine Ensures.bind Ensures.any fun l _ => ?_
  have hlog : Aside r { r with raftLog := l } := ⟨rfl, fun h => h⟩
  exact (aside_send _ _).mono fun r' hr' => hlog.trans hr'

/-- `set_progress` changes neither the flag of the node nor a transfer. -/
theorem setProgress_flags (r : Raft) (id matched next : ℕ) (b : Bool) :
    Ensures (r.setProgress id matched next b) fun r' =>
      r'.isLearner = r.isLearner ∧ r'.leadTransferee = r.leadTransferee := by
  unfold setProgress
  refine Ensures.ite (fun _ => Ensures.ok ⟨rfl, rfl⟩) fun _ => ?_
  exact Ensures.ite (fun _ => Ensures.error) fun _ => Ensures.ok ⟨rfl, rfl⟩

/-- What `restore_node` leaves when it completes: the node has the flag of the members that it is among, and
knows itself, as its log line has read its progress. It has made no learner of a voter. -/
theorem restoreNode_flags (nodes : List ℕ) (b : Bool) : ∀ r : Raft, Ensures (r.restoreNode nodes b) fun r' =>
    r'.isLearner = (if r.id ∈ nodes then b else r.isLearner) ∧ r'.leadTransferee = r.leadTransferee ∧
      (nodes ≠ [] → r'.KnowsItself) ∧ (b = true → ∀ y ∈ nodes, y ∉ r.prs) := by
  induction nodes with
  | nil => exact fun r => Ensures.ok ⟨by simp, rfl, fun h => absurd rfl h, nofun⟩
  | cons node nodes ih =>
    intro r
    by_cases hb : b = true → node ∉ r.prs
    · obtain ⟨r₁, hset, hone⟩ := restored_one hb
      obtain ⟨hflag₁, htransferee₁⟩ := setProgress_flags _ _ _ _ _ _ hset
      rw [restoreNode_cons hset]
      refine Ensures.bindEq fun p hp => ?_
      have hknows₁ : r₁.KnowsItself := peerProgress_self.mp ⟨p, hp⟩
      refine ((ih r₁).and (restoreNode_restored nodes b r₁)).mono fun r' hr' => ?_
      obtain ⟨⟨hflag, htransferee, -, hvoters⟩, hrestored⟩ := hr'
      refine ⟨?_, ?_, fun _ => hrestored.knowsItself.mpr (Or.inl hknows₁), fun h y hy => ?_⟩
      · have hown : r₁.isLearner = if node = r.id then b else r.isLearner := by
          rw [hflag₁]
          split_ifs
          · rfl
          · rfl
        rw [hflag, hone.id, hown]
        by_cases hnode : node = r.id
        · simp [hnode]
        · simp [List.mem_cons, hnode, Ne.symm hnode]
      · rw [htransferee, htransferee₁]
        split_ifs
        · rfl
        · rfl
      · obtain rfl | hy := List.mem_cons.mp hy
        · exact hb h
        · have hprs := hone.prs y
          rw [if_neg (by simp [h])] at hprs
          rw [← AList.lookup_isSome, ← hprs, AList.lookup_isSome]
          exact hvoters h y hy
    · obtain ⟨rfl, hmem⟩ : b = true ∧ node ∈ r.prs := by simpa using hb
      unfold restoreNode
      rw [List.foldlM_cons]
      refine Ensures.bind (P := fun _ => False) ?_ fun _ h => h.elim
      refine Ensures.bind (P := fun _ => False) ?_ fun _ h => h.elim
      unfold setProgress
      rw [if_neg (by simp), if_pos (by split_ifs <;> exact hmem)]
      exact Ensures.error

/-- `restore`. -/
theorem takes_restore (r : Raft) (s : Snapshot) : Ensures (r.restore s) fun p =>
    (p.2.roster = r.roster ∨ r.Lacks s ∧ r.roster.Enrolls s.metadata.confState p.2.roster) ∧
      p.2.leadTransferee = r.leadTransferee := by
  unfold restore
  refine Ensures.ite (fun _ => Ensures.pure ⟨Or.inl rfl, rfl⟩) fun hindex => ?_
  refine Ensures.ite (fun _ => Ensures.bind Ensures.any fun l _ => Ensures.pure ⟨Or.inl rfl, rfl⟩)
    fun hterm => ?_
  have hlacks : r.Lacks s := ⟨not_le.mp hindex, Bool.not_eq_true _ ▸ hterm⟩
  refine Ensures.ite (fun _ => Ensures.pure ⟨Or.inl rfl, rfl⟩) fun _ => ?_
  refine Ensures.bind ((restoreNode_flags s.metadata.confState.nodes false (r.emptied s)).and
    (restoreNode_restored _ _ _)) fun r₁ h₁ => ?_
  refine Ensures.bind ((restoreNode_flags s.metadata.confState.learners true r₁).and
    (restoreNode_restored _ _ _)) fun r₂ h₂ => Ensures.pure ?_
  obtain ⟨⟨hflag₁, htransferee₁, hknows₁, -⟩, hrestored₁⟩ := h₁
  obtain ⟨⟨hflag₂, htransferee₂, hknows₂, hvoters⟩, hrestored₂⟩ := h₂
  have hid₁ : r₁.id = r.id := hrestored₁.id
  have hid₂ : r₂.id = r.id := hrestored₂.id.trans hid₁
  have hempty : ∀ y, (r.emptied s).prs.lookup y = none ∧ (r.emptied s).learnerPrs.lookup y = none :=
    fun y => ⟨AList.lookup_empty y, AList.lookup_empty y⟩
  have hprs₁ : ∀ y, y ∈ r₁.prs ↔ y ∈ s.metadata.confState.nodes := by
    intro y
    rw [← AList.lookup_isSome, hrestored₁.prs, (hempty y).1]
    split_ifs with h <;> simp_all
  have hunknown : ¬(r.emptied s).KnowsItself := by
    rintro (h | h)
    · exact AList.notMem_empty _ h
    · exact AList.notMem_empty _ h
  refine ⟨Or.inr ⟨hlacks, ?_, ?_, ?_⟩, htransferee₂.trans htransferee₁⟩
  · unfold roster Roster.enrolled
    dsimp only
    rw [hid₂, hflag₂, hflag₁, hid₁]
    congr 1
    · funext y
      rw [hrestored₂.prs, if_neg fun h => Bool.noConfusion h.1, hrestored₁.prs, (hempty y).1]
      by_cases hy : y ∈ s.metadata.confState.nodes
      · simp only [hy, true_and, if_true]
        rfl
      · simp only [hy, and_false, if_false]
        rfl
    · funext y
      rw [hrestored₂.learnerPrs, hrestored₁.learnerPrs, (hempty y).2]
      by_cases hy : y ∈ s.metadata.confState.learners
      · simp only [hy, if_true]
        rfl
      · simp [hy]
  · intro y hy hnode
    exact hvoters rfl y hy ((hprs₁ y).mpr hnode)
  · have hnodes : r₁.KnowsItself → r.id ∈ s.metadata.confState.nodes := fun h =>
      (hrestored₁.knowsItself.mp h).resolve_left hunknown
    by_cases hnil : s.metadata.confState.learners = []
    · by_cases hnil' : s.metadata.confState.nodes = []
      · exact Or.inl ⟨hnil', hnil⟩
      · exact Or.inr (Or.inl (hnodes (hknows₁ hnil')))
    · obtain h | h := hrestored₂.knowsItself.mp (hknows₂ hnil)
      · exact Or.inr (Or.inl (hnodes h))
      · rw [hid₁] at h
        exact Or.inr (Or.inr h)

/-- `handle_snapshot`. -/
theorem takes_handleSnapshot (r : Raft) (htype : m.type = .msgSnap) :
    Ensures (r.handleSnapshot m) (Takes m r) := by
  unfold handleSnapshot
  refine Ensures.bind (r.takes_restore m.snapshot) fun p hp => ?_
  have htakes : Takes m r p.2 := ⟨hp.1.imp_right fun h => ⟨htype, h⟩, fun hidle => hp.2.trans hidle⟩
  exact (aside_send _ _).mono fun r' hr' => htakes.trans_aside hr'

/-! ## Stepping -/

/-- `step_candidate` on the answer to a request for a vote or a pre-vote. -/
theorem aside_stepCandidateVoteResp (r : Raft) (m : Message) :
    Ensures (r.stepCandidateVoteResp m) (Aside r) := by
  unfold stepCandidateVoteResp
  have hpoll : Aside r (r.poll m.fromId (!m.reject)).2 := ⟨rfl, fun h => h⟩
  dsimp only
  refine Ensures.ite (fun _ => ?_) fun _ => ?_
  · refine Ensures.ite (fun _ => ?_) fun _ => ?_
    · exact (aside_campaignElection _ []).mono fun r' hr' => hpoll.trans hr'
    refine Ensures.ite (fun _ => ?_) fun _ => Ensures.error
    refine Ensures.bind (aside_becomeLeader _) fun r₁ h₁ => ?_
    exact r₁.keepsStanding_bcastAppend.mono fun r' hr' => (hpoll.trans h₁).trans (.of_standing hr')
  · refine Ensures.ite (fun _ => Ensures.pure ?_) fun _ => Ensures.pure hpoll
    exact hpoll.trans (aside_becomeFollower _ _ _)

/-- `step_candidate`. -/
theorem takes_stepCandidate (r : Raft) (m : Message) :
    Ensures (r.stepCandidate m) fun q => Takes m r q.2 := by
  have hfollow : Aside r (r.becomeFollower m.term m.fromId) := r.aside_becomeFollower _ _
  unfold stepCandidate
  cases htype : m.type with
  | msgApp =>
    exact Ensures.bind (aside_handleAppendEntries _ m) fun r' hr' => Ensures.pure (hfollow.trans hr').takes
  | msgHeartbeat =>
    exact Ensures.bind (aside_handleHeartbeat _ m) fun r' hr' => Ensures.pure (hfollow.trans hr').takes
  | msgSnap =>
    refine Ensures.bind (takes_handleSnapshot _ htype) fun r' hr' => Ensures.pure ?_
    exact hfollow.trans_takes (r.reset_raftLog m.term) hr'
  | msgVoteResp | msgPreVoteResp =>
    exact Ensures.bind (r.aside_stepCandidateVoteResp m) fun r' hr' => Ensures.pure hr'.takes
  | _ => exact Ensures.pure (Aside.refl r).takes

/-- `step_follower`. -/
theorem takes_stepFollower (r : Raft) (m : Message) :
    Ensures (r.stepFollower m) fun q => Takes m r q.2 := by
  have hheard : Aside r { r with electionElapsed := 0, lead := m.fromId } := ⟨rfl, fun h => h⟩
  have hsame : ∀ {st : Status}, Ensures (Pure.pure (st, r) : Result (Status × Raft))
      fun q => Takes m r q.2 := Ensures.pure (Aside.refl r).takes
  have hforward : ∀ x : Message, Ensures (do
      let r' ← r.send x
      return (Status.ok, r')) fun q => Takes m r q.2 := fun x =>
    Ensures.bind (r.aside_send x) fun r' hr' => Ensures.pure hr'.takes
  unfold stepFollower
  cases htype : m.type with
  | msgProp =>
    refine Ensures.ite (fun _ => hsame) fun _ => ?_
    exact Ensures.ite (fun _ => hsame) fun _ => hforward _
  | msgApp =>
    exact Ensures.bind (aside_handleAppendEntries _ m) fun r' hr' => Ensures.pure (hheard.trans hr').takes
  | msgHeartbeat =>
    exact Ensures.bind (aside_handleHeartbeat _ m) fun r' hr' => Ensures.pure (hheard.trans hr').takes
  | msgSnap =>
    exact Ensures.bind (takes_handleSnapshot _ htype) fun r' hr' => Ensures.pure (hheard.trans_takes rfl hr')
  | msgTransferLeader | msgReadIndex => exact Ensures.ite (fun _ => hsame) fun _ => hforward _
  | msgTimeoutNow =>
    refine Ensures.ite (fun _ => ?_) fun _ => hsame
    exact Ensures.bind (r.aside_campaignElection _) fun r' hr' => Ensures.pure hr'.takes
  | msgReadIndexResp =>
    refine Ensures.pure ?_
    unfold stepFollowerReadIndexResp
    split
    · exact Aside.takes ⟨rfl, fun h => h⟩
    · exact (Aside.refl r).takes
  | _ => exact hsame

/-- `step` past the check of the term, by a node that does not lead. -/
theorem takes_stepBody (hstate : r.state ≠ .leader) (m : Message) :
    Ensures (r.stepBody m) fun q => Takes m r q.2 := by
  have hrole : Ensures (r.stepRole m) fun q => Takes m r q.2 := by
    unfold stepRole
    split
    · next hl => exact absurd hl hstate
    · exact r.takes_stepCandidate m
    · exact r.takes_stepCandidate m
    · exact r.takes_stepFollower m
  unfold stepBody
  split
  · exact Ensures.bind r.aside_stepHup fun r' hr' => Ensures.pure hr'.takes
  · exact Ensures.bind (r.aside_stepVote m) fun r' hr' => Ensures.pure hr'.takes
  · exact Ensures.bind (r.aside_stepVote m) fun r' hr' => Ensures.pure hr'.takes
  · exact hrole

/-- `step` on a message of a lower term. -/
theorem aside_stepLowerTerm (r : Raft) (m : Message) : Ensures (r.stepLowerTerm m) (Aside r) :=
  (r.keepsStanding_stepLowerTerm m).mono fun _ h => .of_standing h

/-- `tick_election`. -/
theorem aside_tickElection (r : Raft) : Ensures r.tickElection (Aside r) := by
  unfold tickElection
  have hticked : ∀ n, Aside r { r with electionElapsed := n } := fun n => ⟨rfl, fun h => h⟩
  refine Ensures.ite (fun _ => ?_) fun _ => Ensures.pure (hticked _)
  unfold step stepBody
  rw [if_pos rfl]
  refine Ensures.bind (Ensures.bind (aside_stepHup _) fun r' hr' => Ensures.pure hr')
    (P := fun q => Aside { r with electionElapsed := 0 } q.2) fun q hq => Ensures.pure ?_
  exact (hticked 0).trans hq

end Raft

end RaftCpp
