import RaftCpp.Raft.Leader

/-!
# The handlers as sequences of moves

Every handler of a node, `step`, `tick`, and the changes of the membership are sequences of moves.
-/

namespace RaftCpp

open Outcome

variable {c : Cause} {r r' : Raft}

namespace Raft

/-! ## The log -/

/-- A change of the log is a move. -/
theorem steady_log {l : RaftLog} (h : LogMove c r l) : Steady c r { r with raftLog := l } :=
  (Move.log h).steady rfl

/-! ## Elections -/

/-- The state of a new leader before its first entry, where `p` is its own progress. -/
def elected (r : Raft) (p : Progress) : Raft :=
  { r.takeLead with
    prs := r.takeLead.prs.insert r.takeLead.id p.becomeReplicate
    pendingConfIndex := r.takeLead.raftLog.lastIndex }

/-- `become_leader` goes on as a leader. -/
theorem leads_becomeLeader {s : Raft} : Ensures r.becomeLeader fun r' =>
    ∃ p, r.takeLead.prs.lookup r.takeLead.id = some p ∧ LeaderCourse c s (r.elected p) r' := by
  unfold becomeLeader
  refine Ensures.ite (fun _ => Ensures.error) fun _ => ?_
  dsimp only
  split
  · exact Ensures.error
  · next p hself =>
    have hempty : Ensures ((r.elected p).appendEntry [{}]) fun q => LeaderCourse c s (r.elected p) q.2 :=
      (leads_appendEntry rfl (Or.inl rfl)).mono fun q hq => hq.1
    refine Ensures.bind hempty fun q hq => ?_
    refine Ensures.ite (fun _ => Ensures.error) fun _ => Ensures.pure ⟨p, hself, ?_⟩
    exact hq.trans (leads_reduceUncommittedSize [{}])

/-- `become_leader` is a sequence of moves. -/
theorem moves_becomeLeader (hstate : r.state = .candidate)
    (hcount : r.quorum = r.votes.entries.countP (·.2)) :
    Ensures r.becomeLeader fun r' => Course c r r' ∧ r'.state = .leader := by
  refine (leads_becomeLeader (c := c) (s := r)).mono fun r' hr' => ?_
  obtain ⟨p, hself, hleads⟩ := hr'
  have hmem : r.takeLead.id ∈ r.takeLead.prs := by
    rw [← AList.lookup_isSome, hself]
    rfl
  have hput : r.takeLead.putProgress r.takeLead.id p.becomeReplicate =
      { r.takeLead with prs := r.takeLead.prs.insert r.takeLead.id p.becomeReplicate } := by
    rw [putProgress, if_pos hmem]
  have helected : (r.elected p).outline = r.takeLead.outline := by
    refine Eq.trans ?_ (putProgress_outline r.takeLead r.takeLead.id p.becomeReplicate)
    rw [hput]
    rfl
  have hlead : Course c r (r.elected p) := (Move.lead hstate hcount).moves.tail (Move.other helected)
  exact ⟨hlead.trans hleads.steady.moves, hleads.state⟩

/-- `campaign` sends its requests. -/
theorem steady_requestVotes {voteMsg : MessageType} {term : ℕ} {ctx : Bytes} {st : RaftState}
    (hstate : r.state = st)
    (hsend : ∀ (r₁ : Raft) (x : Message), r₁.state = st → r₁.term = r.term → x.type = voteMsg →
      x.term = term → SendOK c r₁ x) :
    Ensures (r.requestVotes voteMsg term ctx) (Steady c r) := by
  unfold requestVotes
  have hinv : Ensures (r.prs.keys.foldlM (fun r id =>
      if id = r.id then .ok r
      else r.send { term := term, toId := id, type := voteMsg, index := r.raftLog.lastIndex,
                    logTerm := r.raftLog.lastTerm, context := ctx }) r)
      fun r' => Steady c r r' ∧ r'.term = r.term := by
    refine Ensures.foldlM _ (fun r₁ id _ h₁ => ?_) r ⟨Steady.refl c r, rfl⟩
    refine Ensures.ite (fun _ => Ensures.ok h₁) fun _ => ?_
    intro r₂ hr₂
    have hx := hsend r₁
      { term := term, toId := id, type := voteMsg, index := r₁.raftLog.lastIndex,
        logTerm := r₁.raftLog.lastTerm, context := ctx } (h₁.1.state.trans hstate) h₁.2 rfl rfl
    refine ⟨h₁.1.trans (steady_send hx r₂ hr₂), ?_⟩
    obtain ⟨rfl, -⟩ := send_eq hr₂
    exact h₁.2
  exact hinv.mono fun r' hr' => hr'.1

/-- `campaign` for the votes of the next term. -/
theorem moves_campaignElection (hc : Campaigns c r) (ctx : Bytes) :
    Ensures (r.campaignElection ctx) (Course c r) := by
  unfold campaignElection
  refine Ensures.bind (P := fun r₁ => Course c r r₁ ∧ r₁.state = .candidate) ?_ ?_
  · unfold becomeCandidate
    refine Ensures.ite (fun _ => Ensures.error) fun hne => Ensures.ok ⟨?_, rfl⟩
    exact (Move.campaign hne hc).moves
  · rintro r₁ ⟨h₁, hst₁⟩
    have hself : Course c r (r₁.poll r₁.id true).2 :=
      h₁.trans (Move.voteSelf (Or.inl hst₁)).moves
    have hst₂ : (r₁.poll r₁.id true).2.state = .candidate := hst₁
    dsimp only
    refine Ensures.ite (fun hq => ?_) fun _ => ?_
    · refine (moves_becomeLeader (c := c) hst₂ hq).mono fun r' hr' => hself.trans hr'.1
    · refine (steady_requestVotes hst₂ fun r₃ x hst₃ hterm hx hxt => ?_).mono
        fun r' hr' => hself.trans hr'.moves
      unfold SendOK
      simp only [hx]
      exact ⟨hxt.trans hterm.symm, hst₃⟩

/-- `campaign` for pre-votes. -/
theorem moves_campaignPreElection (hc : c.AsksToCampaign) (hhup : r.MayHup)
    (hpre : r.preVote = true) : Ensures r.campaignPreElection (Course c r) := by
  unfold campaignPreElection
  refine Ensures.bind (P := fun r₁ => Course c r r₁ ∧ r₁.state = .preCandidate) ?_ ?_
  · unfold becomePreCandidate
    refine Ensures.ite (fun _ => Ensures.error) fun hne => Ensures.ok ⟨?_, rfl⟩
    exact (Move.poll hc hne hhup hpre).moves
  · rintro r₁ ⟨h₁, hst₁⟩
    have hself : Course c r (r₁.poll r₁.id true).2 :=
      h₁.trans (Move.voteSelf (Or.inr hst₁)).moves
    have hst₂ : (r₁.poll r₁.id true).2.state = .preCandidate := hst₁
    dsimp only
    refine Ensures.ite (fun hq => ?_) fun _ => ?_
    · have hcamp : Campaigns c (r₁.poll r₁.id true).2 := Campaigns.polled (Or.inl hc) hst₂ hq
      exact (moves_campaignElection hcamp []).mono fun r' hr' => hself.trans hr'
    · refine (steady_requestVotes hst₂ fun r₃ x hst₃ hterm hx hxt => ?_).mono
        fun r' hr' => hself.trans hr'.moves
      unfold SendOK
      simp only [hx]
      exact ⟨by rw [hxt, hterm], hst₃⟩

/-- `step` on a request to campaign. -/
theorem moves_stepHup (hc : c.AsksToCampaign) : Ensures r.stepHup (Course c r) := by
  unfold stepHup
  refine Ensures.ite (fun _ => Ensures.pure Relation.ReflTransGen.refl) fun _ => ?_
  refine Ensures.bindEq fun ⟨status, es⟩ hslice => ?_
  refine Ensures.ite (fun _ => Ensures.error) fun hst => ?_
  refine Ensures.ite (fun _ => Ensures.pure Relation.ReflTransGen.refl) fun hconf => ?_
  obtain rfl := Status.isOk_iff.mp (not_not.mp hst)
  have hhup : r.MayHup := ⟨es, hslice, hconf⟩
  cases hpre : r.preVote with
  | true => exact moves_campaignPreElection hc hhup hpre
  | false => exact moves_campaignElection (Campaigns.hup hc hhup hpre) []

/-! ## The messages of a leader -/

/-- The answers to a leader carry no context. -/
theorem steady_sendAnswer {x : Message} (h : x.type = .msgAppResp ∨ x.type = .msgHeartbeatResp)
    (hctx : x.context = []) : Ensures (r.send x) (Steady c r) := by
  apply steady_send
  unfold SendOK
  obtain h | h := h
  · simp only [h]
  · simp only [h]
    exact hctx

/-- `handle_append_entries`. -/
theorem steady_handleAppendEntries {m : Message} (hc : c = .step m) (htype : m.type = .msgApp) :
    Ensures (r.handleAppendEntries m) (Steady c r) := by
  unfold handleAppendEntries
  refine Ensures.ite (fun _ => steady_sendAnswer (Or.inl rfl) rfl) fun hindex => ?_
  refine Ensures.bindEq fun ⟨last, l⟩ hl => ?_
  have h₁ : Steady c r { r with raftLog := l } :=
    steady_log (LogMove.write m last hc htype (Nat.le_of_not_lt hindex) hl)
  dsimp only
  split
  · exact (steady_sendAnswer (Or.inl rfl) rfl).mono fun r' hr' => h₁.trans hr'
  · exact (steady_sendAnswer (Or.inl rfl) rfl).mono fun r' hr' => h₁.trans hr'

/-- `handle_heartbeat`. -/
theorem steady_handleHeartbeat (m : Message) : Ensures (r.handleHeartbeat m) (Steady c r) := by
  unfold handleHeartbeat
  refine Ensures.bindEq fun l hl => ?_
  have h₁ : Steady c r { r with raftLog := l } := steady_log (LogMove.commit m.commit hl)
  exact (steady_sendAnswer (Or.inr rfl) rfl).mono fun r' hr' => h₁.trans hr'

/-- A change of the membership is a move. -/
theorem steady_members (hc : c = .confChange ∨ ∃ m, c = .step m ∧ m.type = .msgSnap)
    (h : ({ r'.outline with voters := ∅, quorum := 0, isLearner := false } : Outline) =
      { r.outline with voters := ∅, quorum := 0, isLearner := false }) : Steady c r r' :=
  (Move.members hc h).steady (congrArg Outline.state h)

/-- `set_progress`. -/
theorem steady_setProgress (hc : c = .confChange ∨ ∃ m, c = .step m ∧ m.type = .msgSnap)
    (id matched next : ℕ) (isLearner : Bool) :
    Ensures (r.setProgress id matched next isLearner) (Steady c r) := by
  unfold setProgress
  dsimp only
  refine Ensures.ite (fun _ => Ensures.ok (steady_members hc rfl)) fun _ => ?_
  exact Ensures.ite (fun _ => Ensures.error) fun _ => Ensures.ok (steady_members hc rfl)

/-- `restore_node`. -/
theorem steady_restoreNode (hc : c = .confChange ∨ ∃ m, c = .step m ∧ m.type = .msgSnap)
    (nodes : List ℕ) (isLearner : Bool) :
    Ensures (r.restoreNode nodes isLearner) (Steady c r) := by
  unfold restoreNode
  refine Ensures.foldlM nodes (fun r₁ node _ h₁ => ?_) r (Steady.refl c r)
  have h₂ : Steady c r (if node = r₁.id then { r₁ with isLearner := isLearner } else r₁) := by
    split_ifs
    · exact h₁.trans (steady_members hc rfl)
    · exact h₁
  refine Ensures.bind (steady_setProgress hc _ _ _ _) fun r₃ h₃ => ?_
  exact Ensures.bind Ensures.any fun _ _ => Ensures.pure (h₂.trans h₃)

/-- `restore`. -/
theorem steady_restore {m : Message} (hc : c = .step m) (htype : m.type = .msgSnap) :
    Ensures (r.restore m.snapshot) fun p => Steady c r p.2 := by
  unfold restore
  have hmem : c = .confChange ∨ ∃ m, c = .step m ∧ m.type = .msgSnap := Or.inr ⟨m, hc, htype⟩
  refine Ensures.ite (fun _ => Ensures.pure (Steady.refl c r)) fun hindex => ?_
  refine Ensures.ite (fun _ => ?_) fun hterm => ?_
  · exact Ensures.bindEq fun l hl => Ensures.pure (steady_log (LogMove.commit _ hl))
  refine Ensures.ite (fun _ => Ensures.pure (Steady.refl c r)) fun _ => ?_
  have hterm' : r.raftLog.matchTerm m.snapshot.metadata.index m.snapshot.metadata.term = false := by
    simpa using hterm
  have h₁ : Steady c r { r with raftLog := r.raftLog.restore m.snapshot, prs := ∅, learnerPrs := ∅ } :=
    (steady_log (LogMove.restore m hc htype (Nat.lt_of_not_le hindex) hterm')).trans
      (steady_members hmem rfl)
  refine Ensures.bind (steady_restoreNode hmem _ _) fun r₂ h₂ => ?_
  refine Ensures.bind (steady_restoreNode hmem _ _) fun r₃ h₃ => Ensures.pure ?_
  exact h₁.trans (h₂.trans h₃)

/-- `handle_snapshot`. -/
theorem steady_handleSnapshot {m : Message} (hc : c = .step m) (htype : m.type = .msgSnap) :
    Ensures (r.handleSnapshot m) (Steady c r) := by
  unfold handleSnapshot
  refine Ensures.bind (steady_restore hc htype) fun p hp => ?_
  exact (steady_sendAnswer (Or.inl rfl) rfl).mono fun r' hr' => hp.trans hr'

/-! ## The leader -/

/-- `step_leader`. -/
theorem moves_stepLeader (hl : r.state = .leader) {m : Message} (hc : c = .step m) :
    Ensures (r.stepLeader m) fun p => Course c r p.2 := by
  by_cases hcheck : m.type = .msgCheckQuorum
  · unfold stepLeader
    simp only [hcheck]
    refine Ensures.pure ?_
    dsimp only
    split
    · exact (Move.follow r.term 0 (Or.inl rfl)).moves
    · exact Relation.ReflTransGen.refl
  · exact (leads_stepLeader hl hc hcheck).mono fun p hp => hp.steady.moves

/-! ## The other roles -/

/-- The term of a message as the handlers of the roles see it: the node's own, or none, or a higher one
in a granted pre-vote. -/
def TermFits (r : Raft) (m : Message) : Prop :=
  m.term = 0 ∨ m.term = r.term ∨
    ((m.type = .msgPreVote ∨ m.type = .msgPreVoteResp) ∧ r.term < m.term)

/-- A candidate follows the sender of a leader's message. -/
theorem moves_becomeFollower_of_candidate {m : Message} (hc : c = .step m) (hfit : r.TermFits m)
    (hstate : r.state = .candidate ∨ r.state = .preCandidate)
    (htype : m.type = .msgApp ∨ m.type = .msgHeartbeat ∨ m.type = .msgSnap) :
    Course c r (r.becomeFollower m.term m.fromId) := by
  apply Move.moves
  apply Move.follow
  rcases hfit with h | h | ⟨h, -⟩
  · -- Such a message without a term is taken for one of the current term.
    refine Or.inr ⟨m, hc, rfl, Or.inr ?_⟩
    unfold trusts
    rcases hstate with hs | hs <;> rcases htype with ht | ht | ht <;> rw [hs, ht, h] <;> rfl
  · exact Or.inl h
  · rcases htype with ht | ht | ht <;> rw [ht] at h <;> simp at h

/-- `step_candidate` on the answer to a request for a vote or a pre-vote. -/
theorem moves_stepCandidateVoteResp {m : Message} (hc : c = .step m) (hfit : r.TermFits m)
    (hstate : r.state = .candidate ∨ r.state = .preCandidate)
    (htype : m.type = .msgVoteResp ∨ m.type = .msgPreVoteResp) :
    Ensures (r.stepCandidateVoteResp m) (Course c r) := by
  unfold stepCandidateVoteResp
  have hterm : m.term = 0 ∨ m.term = r.term ∨ (m.type = .msgPreVoteResp ∧ r.term < m.term) := by
    refine hfit.imp_right (Or.imp_right fun h => ⟨?_, h.2⟩)
    rcases htype with ht | ht
    · rw [ht] at h
      simp at h
    · exact ht
  have hanswer : Course c r (r.poll m.fromId (!m.reject)).2 :=
    (Move.answer m hc htype hterm hstate).moves
  dsimp only
  refine Ensures.ite (fun hq => ?_) fun _ => ?_
  · refine Ensures.ite (fun hpre => ?_) fun _ => ?_
    · exact (moves_campaignElection (Campaigns.polled (Or.inr ⟨m, hc, htype⟩) hpre hq) []).mono fun r' hr' =>
        hanswer.trans hr'
    refine Ensures.ite (fun hcand => ?_) fun _ => Ensures.error
    refine Ensures.bind (moves_becomeLeader (c := c) hcand hq) fun r₁ h₁ => ?_
    refine (leads_bcastAppend (c := c) (s := r) (Or.inl h₁.2)).mono fun r' hr' => ?_
    exact (hanswer.trans h₁.1).trans hr'.steady.moves
  · refine Ensures.ite (fun _ => Ensures.pure ?_) fun _ => Ensures.pure hanswer
    exact hanswer.trans (Move.follow _ 0 (Or.inl rfl)).moves

/-- `step_candidate`. -/
theorem moves_stepCandidate {m : Message} (hc : c = .step m) (hfit : r.TermFits m)
    (hstate : r.state = .candidate ∨ r.state = .preCandidate) :
    Ensures (r.stepCandidate m) fun p => Course c r p.2 := by
  have hfollow := moves_becomeFollower_of_candidate hc hfit hstate
  unfold stepCandidate
  cases htype : m.type with
  | msgProp => exact Ensures.pure Relation.ReflTransGen.refl
  | msgApp =>
    refine Ensures.bind (steady_handleAppendEntries hc htype) fun r' hr' => Ensures.pure ?_
    exact (hfollow (Or.inl htype)).trans hr'.moves
  | msgHeartbeat =>
    refine Ensures.bind (steady_handleHeartbeat (c := c) m) fun r' hr' => Ensures.pure ?_
    exact (hfollow (Or.inr (Or.inl htype))).trans hr'.moves
  | msgSnap =>
    refine Ensures.bind (steady_handleSnapshot hc htype) fun r' hr' => Ensures.pure ?_
    exact (hfollow (Or.inr (Or.inr htype))).trans hr'.moves
  | msgVoteResp =>
    exact Ensures.bind (moves_stepCandidateVoteResp hc hfit hstate (Or.inl htype)) fun r' hr' =>
      Ensures.pure hr'
  | msgPreVoteResp =>
    exact Ensures.bind (moves_stepCandidateVoteResp hc hfit hstate (Or.inr htype)) fun r' hr' =>
      Ensures.pure hr'
  | _ => exact Ensures.pure Relation.ReflTransGen.refl

/-- `step_follower`, except for a request to take over. -/
theorem steady_stepFollower {m : Message} (hc : c = .step m) (hstate : r.state = .follower)
    (hnow : m.type ≠ .msgTimeoutNow) : Ensures (r.stepFollower m) fun p => Steady c r p.2 := by
  have hheard : (m.type = .msgApp ∨ m.type = .msgHeartbeat ∨ m.type = .msgSnap) →
      Steady c r { r with electionElapsed := 0, lead := m.fromId } := fun htype =>
    (Move.heard m hc htype hstate).steady rfl
  unfold stepFollower
  cases htype : m.type with
  | msgProp =>
    refine Ensures.ite (fun _ => Ensures.pure (Steady.refl c r)) fun _ => ?_
    refine Ensures.ite (fun _ => Ensures.pure (Steady.refl c r)) fun _ => ?_
    refine Ensures.bind (steady_send (c := c) ?_) fun r' hr' => Ensures.pure hr'
    exact ⟨m, hc, htype, rfl⟩
  | msgApp =>
    refine Ensures.bind (steady_handleAppendEntries hc htype) fun r' hr' => Ensures.pure ?_
    exact (hheard (Or.inl htype)).trans hr'
  | msgHeartbeat =>
    refine Ensures.bind (steady_handleHeartbeat (c := c) m) fun r' hr' => Ensures.pure ?_
    exact (hheard (Or.inr (Or.inl htype))).trans hr'
  | msgSnap =>
    refine Ensures.bind (steady_handleSnapshot hc htype) fun r' hr' => Ensures.pure ?_
    exact (hheard (Or.inr (Or.inr htype))).trans hr'
  | msgTransferLeader | msgReadIndex =>
    refine Ensures.ite (fun _ => Ensures.pure (Steady.refl c r)) fun _ => ?_
    refine Ensures.bind (steady_send (c := c) ?_) fun r' hr' => Ensures.pure hr'
    exact trivial
  | msgTimeoutNow => exact absurd htype hnow
  | msgReadIndexResp =>
    refine Ensures.pure ?_
    unfold stepFollowerReadIndexResp
    split
    · exact (Move.read _).steady rfl
    · exact Steady.refl c r
  | _ => exact Ensures.pure (Steady.refl c r)

/-- `step_follower`. -/
theorem moves_stepFollower {m : Message} (hc : c = .step m) (hstate : r.state = .follower) :
    Ensures (r.stepFollower m) fun p => Course c r p.2 := by
  by_cases hnow : m.type = .msgTimeoutNow
  · unfold stepFollower
    simp only [hnow]
    refine Ensures.ite (fun _ => ?_) fun _ => Ensures.pure Relation.ReflTransGen.refl
    have hcamp : Campaigns c r := Campaigns.timeoutNow m hc hnow hstate
    exact Ensures.bind (moves_campaignElection hcamp _) fun r' hr' => Ensures.pure hr'
  · exact (steady_stepFollower hc hstate hnow).mono fun p hp => hp.moves

/-- `step_`. -/
theorem moves_stepRole {m : Message} (hc : c = .step m) (hfit : r.TermFits m) :
    Ensures (r.stepRole m) fun p => Course c r p.2 := by
  unfold stepRole
  cases hstate : r.state with
  | leader => exact moves_stepLeader hstate hc
  | candidate => exact moves_stepCandidate hc hfit (Or.inl hstate)
  | preCandidate => exact moves_stepCandidate hc hfit (Or.inr hstate)
  | follower => exact moves_stepFollower hc hstate

/-- `step` past the check of the term. -/
theorem moves_stepBody {m : Message} (hc : c = .step m) (hfit : r.TermFits m) :
    Ensures (r.stepBody m) fun p => Course c r p.2 := by
  unfold stepBody
  cases htype : m.type with
  | msgHup =>
    exact Ensures.bind (moves_stepHup (Or.inr ⟨m, hc, htype⟩)) fun r' hr' => Ensures.pure hr'
  | msgVote | msgPreVote =>
    exact Ensures.bind (leads_stepVote (s := r) hc) fun r' hr' => Ensures.pure hr'.steady.moves
  | _ => exact moves_stepRole hc hfit

/-- `step` on a message of a higher term. -/
theorem moves_stepHigherTerm {m : Message} (hc : c = .step m) (hlt : r.term < m.term) :
    Ensures (r.stepHigherTerm m) fun r' => Course c r r' ∧ r'.TermFits m := by
  unfold stepHigherTerm
  refine Ensures.ite (fun h => Ensures.pure ⟨Relation.ReflTransGen.refl, ?_⟩) fun _ => ?_
  · exact Or.inr (Or.inr ⟨h.imp_right And.left, hlt⟩)
  · have hfollow : ∀ lead, Course c r (r.becomeFollower m.term lead) ∧
        (r.becomeFollower m.term lead).TermFits m := fun lead => by
      constructor
      · exact (Move.follow m.term lead (Or.inr ⟨m, hc, rfl, Or.inl hlt⟩)).moves
      · refine Or.inr (Or.inl ?_)
        unfold becomeFollower reset resetRandomizedElectionTimeout abortLeaderTransfer
        dsimp only
        split_ifs with h
        · rfl
        · exact (not_not.mp h).symm
    refine Ensures.bind Ensures.any fun _ _ => ?_
    exact Ensures.ite (fun _ => Ensures.pure (hfollow _)) fun _ => Ensures.pure (hfollow _)

/-- `step` is a sequence of moves. -/
theorem moves_step {m : Message} (hc : c = .step m) :
    Ensures (r.step m) fun p => Course c r p.2 := by
  unfold step
  refine Ensures.ite (fun h => moves_stepBody hc (Or.inl h)) fun _ => ?_
  refine Ensures.ite (fun hlt => ?_) fun hge => ?_
  · refine Ensures.ite (fun _ => Ensures.pure Relation.ReflTransGen.refl) fun _ => ?_
    refine Ensures.bind (moves_stepHigherTerm hc hlt) fun r₁ h₁ => ?_
    exact (moves_stepBody hc h₁.2).mono fun p hp => h₁.1.trans hp
  · refine Ensures.ite (fun _ => ?_) fun hle => ?_
    · refine Ensures.bind (leads_stepLowerTerm (c := c) (s := r) m) fun r' hr' => ?_
      exact Ensures.pure hr'.steady.moves
    · exact moves_stepBody hc (Or.inr (Or.inl (by omega)))

end Raft

/-! ## Ticks -/

/-- The messages that a node steps into itself when its clock ticks. -/
def Message.IsTickMsg (m : Message) : Prop :=
  (m.type = .msgHup ∨ m.type = .msgBeat ∨ m.type = .msgCheckQuorum) ∧ m.term = 0

/-- What a node sends because of such a message it may send because of the clock. -/
theorem SendOK.tick {m x : Message} (hm : m.IsTickMsg) (hx : SendOK (.step m) r x) :
    SendOK .tick r x := by
  -- The types that a message of the clock does not have.
  have hne : m.type ≠ .msgProp ∧ m.type ≠ .msgVote ∧ m.type ≠ .msgPreVote := by
    rcases hm.1 with h | h | h <;> rw [h] <;> simp
  unfold SendOK at hx ⊢
  cases htype : x.type with
  | msgApp => simp only [htype] at hx; exact ⟨Or.inl (hx.1.resolve_right nofun), hx.2⟩
  | msgSnap => simp only [htype] at hx; exact ⟨Or.inl (hx.1.resolve_right nofun), hx.2⟩
  | msgHeartbeat => simp only [htype] at hx; exact Or.inl (hx.resolve_right nofun)
  | msgTimeoutNow => simp only [htype] at hx; exact Or.inl (hx.resolve_right nofun)
  | msgProp =>
    simp only [htype] at hx
    obtain ⟨m', hc, h, -⟩ := hx
    cases hc
    exact absurd h hne.1
  | msgVoteResp =>
    simp only [htype] at hx ⊢
    intro hrej
    obtain ⟨m', hc, h, -⟩ := hx hrej
    cases hc
    exact absurd h hne.2.1
  | msgPreVoteResp =>
    simp only [htype] at hx ⊢
    intro hrej
    obtain ⟨m', hc, h, -⟩ := hx hrej
    cases hc
    exact absurd h hne.2.2
  | msgVote => simp only [htype] at hx; exact hx
  | msgPreVote => simp only [htype] at hx; exact hx
  | msgHeartbeatResp => simp only [htype] at hx; exact hx
  | _ => trivial

/-- A move because of a message of the clock is a move of the clock. -/
theorem Move.tick {m : Message} (hm : m.IsTickMsg) (h : Move (.step m) r r') : Move .tick r r' := by
  have hne : m.type ≠ .msgProp ∧ m.type ≠ .msgApp ∧ m.type ≠ .msgSnap ∧ m.type ≠ .msgHeartbeat ∧
      m.type ≠ .msgVote ∧ m.type ≠ .msgVoteResp ∧ m.type ≠ .msgPreVoteResp ∧
      m.type ≠ .msgTimeoutNow := by
    rcases hm.1 with h | h | h <;> rw [h] <;> simp
  obtain ⟨hprop, happ, hsnap, hbeat, hvote, hresp, hpre, hnow⟩ := hne
  cases h with
  | other h => exact Move.other h
  | send x hx h => exact Move.send x (hx.tick hm) h
  | read rs => exact Move.read rs
  | follow t lead h =>
    apply Move.follow
    apply Or.inl
    rcases h with h | ⟨m', hc, -, h⟩
    · exact h
    · cases hc
      rcases h with h | h
      · rw [hm.2] at h
        omega
      · simp [Raft.trusts, happ, hsnap, hbeat] at h
  | heard m' hc htype _ =>
    cases hc
    rcases htype with h | h | h
    · exact absurd h happ
    · exact absurd h hbeat
    · exact absurd h hsnap
  | poll _ hstate h hpre => exact Move.poll (Or.inl rfl) hstate h hpre
  | campaign hstate h =>
    apply Move.campaign hstate
    cases h with
    | hup _ h hpre => exact Campaigns.hup (Or.inl rfl) h hpre
    | timeoutNow m' hc htype _ => cases hc; exact absurd htype hnow
    | polled _ hst hq => exact Campaigns.polled (Or.inl (Or.inl rfl)) hst hq
  | voteSelf hstate => exact Move.voteSelf hstate
  | answer m' hc htype _ _ =>
    cases hc
    rcases htype with h | h
    · exact absurd h hresp
    · exact absurd h hpre
  | lead hstate hq => exact Move.lead hstate hq
  | grant m' hc htype _ => cases hc; exact absurd htype hvote
  | log h =>
    apply Move.log
    cases h with
    | commit k h => exact LogMove.commit k h
    | propose m' es hc htype _ _ _ => cases hc; exact absurd htype hprop
    | elected hl h => exact LogMove.elected hl h
    | write m' last hc htype _ _ => cases hc; exact absurd htype happ
    | restore m' hc htype _ _ => cases hc; exact absurd htype hsnap
  | members hc _ =>
    rcases hc with hc | ⟨m', hc, htype⟩
    · cases hc
    · cases hc
      exact absurd htype hsnap

/-- Moves because of a message of the clock are moves of the clock. -/
theorem Course.tick {m : Message} (hm : m.IsTickMsg) (h : Course (.step m) r r') :
    Course .tick r r' := by
  induction h with
  | refl => exact Relation.ReflTransGen.refl
  | tail _ hmove ih => exact ih.tail (hmove.tick hm)

namespace Raft

/-- Stepping a message of the clock. -/
theorem moves_step_tick {m : Message} (hm : m.IsTickMsg) :
    Ensures (r.step m) fun p => Course .tick r p.2 :=
  (moves_step rfl).mono fun _ hp => Course.tick hm hp

/-- `tick_election`. -/
theorem moves_tickElection : Ensures r.tickElection (Course .tick r) := by
  unfold tickElection
  have hother : ∀ n, Course .tick r { r with electionElapsed := n } := fun n =>
    Move.moves (Move.other rfl)
  refine Ensures.ite (fun _ => ?_) fun _ => Ensures.pure (hother _)
  refine Ensures.bind (moves_step_tick ⟨Or.inl rfl, rfl⟩) fun p hp => Ensures.pure ?_
  exact (hother 0).trans hp

/-- The quorum check. -/
theorem moves_tickCheckQuorum : Ensures r.tickCheckQuorum (Course .tick r) := by
  unfold tickCheckQuorum
  refine Ensures.ite (fun _ => ?_) fun _ => Ensures.pure Relation.ReflTransGen.refl
  exact Ensures.bind (moves_step_tick ⟨Or.inr (Or.inr rfl), rfl⟩) fun p hp => Ensures.pure hp

/-- The part of `tick_heartbeat` that comes at every election timeout. -/
theorem moves_tickQuorum : Ensures r.tickQuorum (Course .tick r) := by
  unfold tickQuorum
  refine Ensures.ite (fun _ => ?_) fun _ => Ensures.pure Relation.ReflTransGen.refl
  have hother : Course .tick r { r with electionElapsed := 0 } := Move.moves (Move.other rfl)
  refine Ensures.bind moves_tickCheckQuorum fun r₁ h₁ => ?_
  refine Ensures.ite (fun _ => Ensures.pure ?_) fun _ => Ensures.pure (hother.trans h₁)
  exact (hother.trans h₁).trans (Move.moves (Move.other rfl))

/-- `tick_heartbeat`. -/
theorem moves_tickHeartbeat : Ensures r.tickHeartbeat (Course .tick r) := by
  unfold tickHeartbeat
  have hother : Course .tick r
      { r with
        heartbeatElapsed := r.heartbeatElapsed + 1
        electionElapsed := r.electionElapsed + 1 } := Move.moves (Move.other rfl)
  refine Ensures.bind moves_tickQuorum fun r₁ h₁ => ?_
  refine Ensures.ite (fun _ => Ensures.pure (hother.trans h₁)) fun _ => ?_
  refine Ensures.ite (fun _ => ?_) fun _ => Ensures.pure (hother.trans h₁)
  have hbeat : Course .tick r₁ { r₁ with heartbeatElapsed := 0 } := Move.moves (Move.other rfl)
  refine Ensures.bind (moves_step_tick ⟨Or.inr (Or.inl rfl), rfl⟩) fun p hp => Ensures.pure ?_
  exact ((hother.trans h₁).trans hbeat).trans hp

/-- `tick` is a sequence of moves. -/
theorem moves_tick : Ensures r.tick (Course .tick r) := by
  unfold tick
  cases r.state with
  | leader => exact moves_tickHeartbeat
  | _ => exact moves_tickElection

/-! ## Changes of the membership -/

/-- What is known of a peer stays, but for its activity and its being a learner, and of a new peer nothing
is known. -/
def KeepsPeers (r r' : Raft) : Prop :=
  ∀ y p', r'.getProgress y = some p' → ∃ p : Progress,
    (∃ active learner, p' = { p with recentActive := active, isLearner := learner }) ∧
      (r.getProgress y = some p ∨
        p = { Progress.new r.maxInflight with next := r.raftLog.lastIndex + 1 })

/-- No progress changes. -/
theorem KeepsPeers.of_eq (h : ∀ y p, r'.getProgress y = some p → r.getProgress y = some p) :
    r.KeepsPeers r' := fun y p hp => ⟨p, ⟨_, _, rfl⟩, Or.inl (h y p hp)⟩

/-- Only the membership changes. -/
structure Reshapes (r r' : Raft) : Prop where
  /-- Nothing else changes. -/
  frame : ∃ prs learnerPrs isLearner,
    r' = { r with prs := prs, learnerPrs := learnerPrs, isLearner := isLearner }
  /-- What is known of the peers. -/
  peers : r.KeepsPeers r'

/-- Nothing changes. -/
theorem Reshapes.refl (r : Raft) : r.Reshapes r := ⟨⟨_, _, _, rfl⟩, .of_eq fun _ _ h => h⟩

/-- One change after another. -/
theorem Reshapes.trans {r'' : Raft} (h : r.Reshapes r') (h' : r'.Reshapes r'') : r.Reshapes r'' := by
  obtain ⟨⟨prs, lprs, b, rfl⟩, hpeers⟩ := h
  obtain ⟨⟨prs', lprs', b', rfl⟩, hpeers'⟩ := h'
  refine ⟨⟨prs', lprs', b', rfl⟩, fun y p'' hp'' => ?_⟩
  obtain ⟨p', ⟨active', learner', rfl⟩, hp' | hnew⟩ := hpeers' y p'' hp''
  · obtain ⟨p, ⟨active, learner, rfl⟩, hp⟩ := hpeers y p' hp'
    exact ⟨p, ⟨active', learner', rfl⟩, hp⟩
  · exact ⟨p', ⟨active', learner', rfl⟩, Or.inr hnew⟩

/-- A change of the membership is a move. -/
theorem Reshapes.steady (h : r.Reshapes r') : Steady .confChange r r' := by
  obtain ⟨⟨prs, lprs, b, rfl⟩, -⟩ := h
  exact steady_members (Or.inl rfl) rfl

/-- The end of `add_node_or_learner`. -/
theorem reshapes_markActive (id : ℕ) (isLearner : Bool) :
    Ensures (r.markActive id isLearner) r.Reshapes := by
  unfold markActive
  have hrole : r.Reshapes (if r.id = id then { r with isLearner := isLearner } else r) := by
    split_ifs
    · exact ⟨⟨_, _, _, rfl⟩, .of_eq fun _ _ h => h⟩
    · exact .refl r
  refine Ensures.bind peerProgress_eq fun pr hpr => Ensures.pure (hrole.trans ⟨?_, fun y p' hp' => ?_⟩)
  · unfold putProgress
    split_ifs <;> exact ⟨_, _, _, rfl⟩
  · obtain ⟨rfl, rfl⟩ | hp' := getProgress_putProgress hp'
    · exact ⟨pr, ⟨true, pr.isLearner, rfl⟩, Or.inl hpr⟩
    · exact ⟨p', ⟨_, _, rfl⟩, Or.inl hp'⟩

/-- A peer that is added to the voters or to the learners, or moves to the voters. -/
theorem getProgress_insert {id y : ℕ} {p p' : Progress} :
    (({ r with learnerPrs := r.learnerPrs.erase id, prs := r.prs.insert id p } : Raft).getProgress y =
        some p' → y = id ∧ p' = p ∨ r.getProgress y = some p') ∧
      (({ r with learnerPrs := r.learnerPrs.insert id p } : Raft).getProgress y = some p' →
        y = id ∧ p' = p ∨ r.getProgress y = some p') := by
  unfold getProgress
  by_cases hy : y = id
  · subst hy
    constructor
    · intro h
      rw [AList.lookup_insert, Option.some_or] at h
      exact Or.inl ⟨rfl, (Option.some.inj h).symm⟩
    · intro h
      rw [AList.lookup_insert] at h
      cases hprs : r.prs.lookup y with
      | some q =>
        rw [hprs, Option.some_or] at h
        exact Or.inr h
      | none =>
        rw [hprs, Option.none_or] at h
        exact Or.inl ⟨rfl, (Option.some.inj h).symm⟩
  · rw [AList.lookup_insert_ne hy, AList.lookup_insert_ne hy, AList.lookup_erase_ne hy]
    exact ⟨Or.inr, Or.inr⟩

/-- A peer that is removed. -/
theorem getProgress_delProgress {id y : ℕ} {p : Progress}
    (h : (r.delProgress id).getProgress y = some p) : r.getProgress y = some p := by
  unfold delProgress getProgress at h
  by_cases hy : y = id
  · subst hy
    rw [AList.lookup_erase, AList.lookup_erase] at h
    cases h
  · rwa [AList.lookup_erase_ne hy, AList.lookup_erase_ne hy] at h

/-- `set_progress` for a new peer. -/
theorem reshapes_setProgress (id : ℕ) (isLearner : Bool) :
    Ensures (r.setProgress id 0 (r.raftLog.lastIndex + 1) isLearner) r.Reshapes := by
  have hnew : ∀ {y : ℕ} {p' : Progress} (learner : Bool), y = id ∧
      p' = { Progress.new r.maxInflight with next := r.raftLog.lastIndex + 1, isLearner := learner } ∨
        r.getProgress y = some p' → ∃ p : Progress,
          (∃ active learner, p' = { p with recentActive := active, isLearner := learner }) ∧
            (r.getProgress y = some p ∨
              p = { Progress.new r.maxInflight with next := r.raftLog.lastIndex + 1 }) := by
    rintro y p' learner (⟨rfl, rfl⟩ | hp)
    · exact ⟨_, ⟨false, learner, rfl⟩, Or.inr rfl⟩
    · exact ⟨p', ⟨_, _, rfl⟩, Or.inl hp⟩
  unfold setProgress
  refine Ensures.ite (fun _ => Ensures.ok ⟨⟨_, _, _, rfl⟩, fun y p' hp' => ?_⟩) fun _ => ?_
  · exact hnew false (getProgress_insert.1 hp')
  refine Ensures.ite (fun _ => Ensures.error) fun _ => Ensures.ok ⟨⟨_, _, _, rfl⟩, fun y p' hp' => ?_⟩
  exact hnew true (getProgress_insert.2 hp')

/-- `add_node_or_learner`. -/
theorem reshapes_addNodeOrLearner (id : ℕ) (isLearner : Bool) :
    Ensures (r.addNodeOrLearner id isLearner) r.Reshapes := by
  unfold addNodeOrLearner
  cases hget : r.getProgress id with
  | none =>
    refine Ensures.bind (reshapes_setProgress id isLearner) fun r₁ h₁ => ?_
    exact (reshapes_markActive id isLearner).mono fun r' hr' => h₁.trans hr'
  | some pr =>
    refine Ensures.ite (fun _ => Ensures.pure (.refl r)) fun _ => ?_
    refine Ensures.ite (fun _ => Ensures.pure (.refl r)) fun _ => ?_
    have h₁ : r.Reshapes
        { r with
          learnerPrs := r.learnerPrs.erase id
          prs := r.prs.insert id { pr with isLearner := false } } := by
      refine ⟨⟨_, _, _, rfl⟩, fun y p' hp' => ?_⟩
      obtain ⟨rfl, rfl⟩ | hp' := getProgress_insert.1 hp'
      · exact ⟨pr, ⟨_, _, rfl⟩, Or.inl hget⟩
      · exact ⟨p', ⟨_, _, rfl⟩, Or.inl hp'⟩
    exact (reshapes_markActive id isLearner).mono fun r' hr' => h₁.trans hr'

/-- `add_node_or_learner` is a sequence of moves. -/
theorem steady_addNodeOrLearner (id : ℕ) (isLearner : Bool) :
    Ensures (r.addNodeOrLearner id isLearner) (Steady .confChange r) :=
  (reshapes_addNodeOrLearner id isLearner).mono fun _ h => h.steady

/-- `remove_node` changes the membership, and then commits and sends as a leader does. -/
theorem leads_removeNode {s : Raft} (id : ℕ) : Ensures (r.removeNode id) fun r' =>
    ∃ r₁, r.Reshapes r₁ ∧ LeaderCourse .confChange s r₁ r' := by
  unfold removeNode
  have hdel : r.Reshapes (r.delProgress id) :=
    ⟨⟨_, _, _, rfl⟩, .of_eq fun _ _ => getProgress_delProgress⟩
  refine Ensures.ite (fun _ => Ensures.pure ⟨_, hdel, .refl⟩) fun _ => ?_
  refine Ensures.bind (leads_maybeCommit (c := .confChange) (s := s)) fun p hp => ?_
  have hend : ∀ r₃, LeaderCourse .confChange s (r.delProgress id) r₃ →
      Ensures (if r₃.state = .leader ∧ r₃.leadTransferee = id then
        (Pure.pure r₃.abortLeaderTransfer : Result Raft) else Pure.pure r₃) fun r' =>
          ∃ r₁, r.Reshapes r₁ ∧ LeaderCourse .confChange s r₁ r' := fun r₃ h₃ => by
    refine Ensures.ite (fun _ => Ensures.pure ⟨_, hdel, ?_⟩) fun _ => Ensures.pure ⟨_, hdel, h₃⟩
    exact h₃.tail (LeaderMove.idle r₃.electionElapsed r₃.heartbeatElapsed 0 r₃.uncommittedSize)
  refine Ensures.ite (fun _ => ?_) fun _ => Ensures.bind (Ensures.pure hp) hend
  exact Ensures.bind (leads_bcastAppend (c := .confChange) (s := s) (Or.inr rfl)) fun r' hr' =>
    hend r' (hp.trans hr')

end Raft

namespace RawNode

/-- `apply_conf_change` changes the membership, and then commits and sends as a leader does. -/
theorem leads_applyConfChange {s : Raft} (n : RawNode) (cc : ConfChange) :
    Ensures (n.applyConfChange cc) fun p =>
      (∃ r₁, n.raft.Reshapes r₁ ∧ LeaderCourse .confChange s r₁ p.2.raft) ∧
        p.2.prevSoftState = n.prevSoftState ∧ p.2.prevHardState = n.prevHardState := by
  unfold applyConfChange
  have hend : ∀ {x : Result Raft}, Ensures x (fun r' =>
      ∃ r₁, n.raft.Reshapes r₁ ∧ LeaderCourse .confChange s r₁ r') →
      Ensures (do
        let r ← x
        return (({ nodes := r.nodes, learners := r.learnerNodes } : ConfState),
          ({ n with raft := r } : RawNode))) fun p =>
        (∃ r₁, n.raft.Reshapes r₁ ∧ LeaderCourse .confChange s r₁ p.2.raft) ∧
          p.2.prevSoftState = n.prevSoftState ∧ p.2.prevHardState = n.prevHardState :=
    fun hx => Ensures.bind hx fun r hr => Ensures.pure ⟨hr, rfl, rfl⟩
  have hadd : ∀ isLearner, Ensures (n.raft.addNodeOrLearner cc.nodeId isLearner) fun r' =>
      ∃ r₁, n.raft.Reshapes r₁ ∧ LeaderCourse .confChange s r₁ r' := fun isLearner =>
    (Raft.reshapes_addNodeOrLearner cc.nodeId isLearner).mono fun r' hr' => ⟨r', hr', .refl⟩
  have hnone : Ensures (Pure.pure n.raft : Result Raft) fun r' =>
      ∃ r₁, n.raft.Reshapes r₁ ∧ LeaderCourse .confChange s r₁ r' :=
    Ensures.pure ⟨_, .refl _, .refl⟩
  split_ifs
  · exact hend hnone
  · exact hend (hadd false)
  · exact hend (hadd true)
  · exact hend (Raft.leads_removeNode _)
  · exact hend hnone
  · exact Ensures.bind (P := fun _ => False) Ensures.throw fun r hr => hr.elim

/-- `apply_conf_change` is a sequence of moves. -/
theorem steady_applyConfChange (n : RawNode) (cc : ConfChange) :
    Ensures (n.applyConfChange cc) fun p => Steady .confChange n.raft p.2.raft ∧
      p.2.prevSoftState = n.prevSoftState ∧ p.2.prevHardState = n.prevHardState :=
  (n.leads_applyConfChange (s := n.raft) cc).mono fun _ hp => by
    obtain ⟨⟨r₁, hshape, hleads⟩, hprev⟩ := hp
    exact ⟨hshape.steady.trans hleads.steady, hprev⟩

/-- `step` of the application's interface is a sequence of moves. -/
theorem moves_step (n : RawNode) (m : Message) :
    Ensures (n.step m) fun p => Course (.step m) n.raft p.2.raft ∧
      p.2.prevSoftState = n.prevSoftState ∧ p.2.prevHardState = n.prevHardState := by
  unfold step stepRaft
  refine Ensures.ite (fun _ => Ensures.ok ⟨Relation.ReflTransGen.refl, rfl, rfl⟩) fun _ => ?_
  refine Ensures.ite (fun _ => ?_) fun _ => Ensures.ok ⟨Relation.ReflTransGen.refl, rfl, rfl⟩
  exact Ensures.bind (Raft.moves_step rfl) fun p hp => Ensures.pure ⟨hp, rfl, rfl⟩

/-- `tick` of the application's interface is a sequence of moves. -/
theorem moves_tick (n : RawNode) :
    Ensures n.tick fun n' => Course .tick n.raft n'.raft ∧
      n'.prevSoftState = n.prevSoftState ∧ n'.prevHardState = n.prevHardState := by
  unfold tick
  exact Ensures.bind Raft.moves_tick fun r hr => Ensures.pure ⟨hr, rfl, rfl⟩

end RawNode

end RaftCpp
