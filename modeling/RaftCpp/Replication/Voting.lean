import RaftCpp.Replication.Leading

/-!
# Voting

A vote is a vote in the protocol, a campaign for an election is a campaign, and the answers that a
candidate counts are votes. A pre-vote is nothing to the protocol: the one thing that can go wrong is
that a candidate counts the answer to a poll as a vote.
-/

namespace RaftCpp

open Consensus Outcome

variable {G : Group} {s s' : History} {r r' : Raft}

/-- Counting an answer that is not news, or a refusal, or a vote. -/
theorem Sim.poll (h : Sim G s r) (y : ℕ) (v : Bool)
    (hv : r.state = .candidate → v = true → r.votes.lookup y = none →
      (y = r.id ∨ y ∈ G.voters) ∧ s.grant y r.term = some r.id) :
    ∃ votes, (r.poll y v).2 = { r with votes := votes } ∧ Sim G s { r with votes := votes } ∧
      (r.poll y v).1 = votes.entries.countP (·.2) := by
  have hn := h.node
  have hnode : ∀ votes : AList (fun _ : ℕ => Bool),
      (r.state = .candidate → ∀ z, votes.lookup z = some true →
        (z = r.id ∨ z ∈ G.voters) ∧ s.grant z r.term = some r.id) →
      Sim G s { r with votes := votes } := fun votes hvotes => by
    refine ⟨h.inv, h.indexed, ?_⟩
    refine ⟨hn.id_ne, hn.voters, hn.voter, hn.preVote, hn.uncompacted, hn.term, hn.role, hn.log,
      hn.commit, hn.vote, hvotes, fun hl z p hp => ?_, hn.msgs⟩
    obtain ⟨h1, h2, h3, h4⟩ := hn.progress hl z p hp
    exact ⟨h1, h2, h3, h4⟩
  unfold Raft.poll
  cases hlook : r.votes.lookup y with
  | some b => exact ⟨r.votes, rfl, hnode _ hn.votes, rfl⟩
  | none =>
    refine ⟨r.votes.insert y v, rfl, hnode _ fun hc z hz => ?_, rfl⟩
    rw [AList.lookup_insert_eq] at hz
    split_ifs at hz with hzy
    · rw [hzy]
      exact hv hc (Option.some.inj hz) hlook
    · exact hn.votes hc z hz

/-! ## Campaigns -/

/-- The requests for votes keep the relation. -/
theorem Sim.requestVotes (h : Sim G s r) {voteMsg : MessageType} {term : ℕ} {ctx : Bytes}
    (hm : ∀ (ms : List Message) (y : ℕ), (Raft.isVoteType voteMsg → term ≠ 0) →
      MessageOK G s (Raft.stamped { r with msgs := ms } {
        term := term, toId := y, type := voteMsg, index := r.raftLog.lastIndex
        logTerm := r.raftLog.lastTerm, context := ctx })) :
    LogSafe (r.requestVotes voteMsg term ctx) (Refines G s r.id) := by
  unfold Raft.requestVotes
  refine Secures.mono (P := fun r' => Sim G s r' ∧ ∃ ms, r' = { r with msgs := ms }) ?_ ?_
  · refine Secures.foldlM _ (fun r' y _ hr' => ?_) r ⟨h, r.msgs, rfl⟩
    obtain ⟨hsim, ms, rfl⟩ := hr'
    refine Secures.ite (fun _ => Secures.ok ⟨hsim, ms, rfl⟩) fun _ => ?_
    refine (hsim.send fun ht => hm ms y ht).mono ?_
    rintro r'' ⟨hsim', ms', rfl⟩
    exact ⟨hsim', ms', rfl⟩
  · rintro r' ⟨hsim, ms, rfl⟩
    exact hsim.refines

/-- A campaign for an election is a campaign in the protocol, which a single vote may decide. -/
theorem Sim.campaignElection (h : Sim G s r) (ctx : Bytes) :
    LogSafe (r.campaignElection ctx) (Refines G s r.id) := by
  unfold Raft.campaignElection
  refine Refines.bind (g := id) h.becomeCandidate fun r₁ s₁ h₁ hid hP => ?_
  obtain ⟨hst, hvotes⟩ := hP
  simp only [id_eq] at h₁ hid
  have hn := h₁.node
  have hrole : s₁.role r₁.id = .candidate := by rw [hn.role, hst]; rfl
  obtain ⟨hself, hlog, -⟩ := h₁.inv.elections.candidate r₁.id hrole
  rw [hn.term] at hself hlog
  rw [hn.log] at hlog
  obtain ⟨votes, hpoll, h₂, hcount⟩ := h₁.poll r₁.id true fun _ _ _ => ⟨Or.inl rfl, hself⟩
  rw [show r₁.poll r₁.id true = (votes.entries.countP (·.2), { r₁ with votes := votes }) from
    Prod.ext hcount hpoll]
  rw [← hid]
  refine Secures.ite (fun hq => ?_) fun _ => ?_
  · exact (h₂.becomeLeader hst hq).mono fun r' hr' => hr'.refines
  · refine h₂.requestVotes fun ms y ht => ?_
    have hlast : r₁.raftLog.lastIndex = (s₁.grantLog r₁.id r₁.term).length := by
      rw [hlog, hn.uncompacted.lastIndex_eq]
    have hterm : r₁.raftLog.lastTerm = lastTerm Entry.term (s₁.grantLog r₁.id r₁.term) := by
      rw [hlog, hn.uncompacted.lastTerm_eq]
    exact ⟨ht rfl, hn.id_ne, hself, hlast, hterm⟩

/-- A poll keeps the relation, where polls are allowed. -/
theorem Sim.campaignPreElection (h : Sim G s r) (hpre : r.preVote = true) :
    LogSafe r.campaignPreElection (Refines G s r.id) := by
  unfold Raft.campaignPreElection
  refine Refines.bind (g := id) h.becomePreCandidate fun r₁ s₁ h₁ hid hP => ?_
  obtain ⟨hst, hpre₁⟩ := hP
  simp only [id_eq] at h₁ hid
  obtain ⟨votes, hpoll, h₂, hcount⟩ := h₁.poll r₁.id true fun hc => by
    rw [hst] at hc
    cases hc
  rw [show r₁.poll r₁.id true = (votes.entries.countP (·.2), { r₁ with votes := votes }) from
    Prod.ext hcount hpoll]
  rw [← hid]
  refine Secures.ite (fun _ => h₂.campaignElection []) fun _ => h₂.requestVotes fun ms y ht => ?_
  exact ⟨ht rfl, h₁.node.preVote (hpre₁.trans hpre)⟩

/-- Every kind of campaign keeps the relation. -/
theorem Sim.campaign (h : Sim G s r) {t : CampaignType}
    (hpre : t = .preElection → r.preVote = true) :
    LogSafe (r.campaign t) (Refines G s r.id) := by
  cases t with
  | preElection => exact h.campaignPreElection (hpre rfl)
  | election => exact h.campaignElection []
  | transfer => exact h.campaignElection kCampaignTransfer

/-- `step` on a request to campaign keeps the relation. -/
theorem Sim.stepHup (h : Sim G s r) : LogSafe r.stepHup (Refines G s r.id) := by
  unfold Raft.stepHup
  refine Secures.ite (fun _ => Secures.pure h.refines) fun _ => ?_
  refine Secures.bind (RaftLog.slice_spec h.node.uncompacted _ _ _) ?_
  rintro ⟨status, es⟩ -
  refine Secures.ite (fun _ => Secures.error fun h => h) fun _ => ?_
  refine Secures.ite (fun _ => Secures.pure h.refines) fun _ => h.campaign fun ht => ?_
  by_contra hpre
  rw [if_neg hpre] at ht
  cases ht

/-! ## Votes -/

/-- A node that has not voted in its term may vote for a candidate whose log is as up to date. -/
theorem Sim.vote (h : Sim G s r) {c : ℕ} (hc : c ≠ 0) (hfree : r.vote = 0)
    (hcand : s.grant c r.term = some c)
    (hlog : UpToDate Entry.term (s.grantLog c r.term) r.raftLog.toList) :
    ∃ s', Moves G.setting r.id s s' ∧ Sim G s' { r with vote := c } ∧
      s'.grant r.id r.term = some c := by
  have hn := h.node
  have hnone : s.grant r.id r.term = none := by rw [hn.vote, if_pos hfree]
  have hstep : Step G.setting s r.id (s.grantVote r.id c) :=
    .grantVote c (by rw [hn.term]; exact hnone) (by rw [hn.term]; exact hcand)
      (by rw [hn.term, hn.log]; exact hlog)
  obtain ⟨hinv, hle, hidx⟩ := h.step hstep rfl
  have hgrant : (s.grantVote r.id c).grant r.id r.term = some c := by
    rw [Elections.grant_grantVote, if_pos ⟨rfl, hn.term.symm⟩]
  refine ⟨_, Relation.ReflTransGen.single hstep, ⟨hinv, hidx, ?_⟩, hgrant⟩
  refine ⟨hn.id_ne, hn.voters, hn.voter, hn.preVote, hn.uncompacted, hn.term, hn.role, hn.log,
    hn.commit, ?_, fun hst y hy => ⟨(hn.votes hst y hy).1, hle.grant _ _ _ (hn.votes hst y hy).2⟩,
    fun hl y p hp => ?_, fun m hm => (hn.msgs m hm).mono hle⟩
  · rw [if_neg hc]
    exact hgrant
  · obtain ⟨h1, h2, h3, h4⟩ := hn.progress hl y p hp
    exact ⟨h1, h2, h3, h4⟩

/-- The answer to a request for a vote. -/
theorem MessageOK.answerVote {m : Message} (hm : MessageOK G s m) {t : MessageType}
    (htype : m.type = .msgVote ∧ t = .msgVoteResp ∨
      m.type = .msgPreVote ∧ t = .msgPreVoteResp) {term : ℕ} (hterm : term ≠ 0) {reject : Bool}
    (hgrant : t = .msgVoteResp → reject = false →
      r.id ∈ G.voters ∧ s.grant r.id term = some m.fromId) :
    MessageOK G s (r.stamped { toId := m.fromId, term := term, type := t, reject := reject }) := by
  rcases htype with ⟨hm', rfl⟩ | ⟨hm', rfl⟩
  · exact ⟨hterm, fun hr => hgrant rfl hr⟩
  · unfold MessageOK at hm
    simp only [hm'] at hm
    exact ⟨hterm, hm.2⟩

/-- `step` on a request for a vote is simulated by a vote in the protocol, unless the node voted for the
candidate before. -/
theorem Sim.stepVote (h : Sim G s r) {m : Message} (hm : MessageOK G s m)
    (htype : m.type = .msgVote ∧ m.term = r.term ∨ m.type = .msgPreVote) :
    LogSafe (r.stepVote m) (Refines G s r.id) := by
  have hn := h.node
  unfold Raft.stepVote
  refine Secures.ite (fun _ => Secures.pure h.refines) fun hlearner => ?_
  have hself : r.id ∈ G.voters := hn.voter (by simpa using hlearner)
  refine Secures.bind (P := fun t => m.type = .msgVote ∧ t = .msgVoteResp ∨
      m.type = .msgPreVote ∧ t = .msgPreVoteResp) ?_ fun t ht => ?_
  · rcases htype with ⟨hv, -⟩ | hv
    · rw [hv]
      exact Secures.ok (Or.inl ⟨rfl, rfl⟩)
    · rw [hv]
      exact Secures.ok (Or.inr ⟨rfl, rfl⟩)
  refine Secures.ite (fun hcan => ?_) fun _ => ?_
  swap
  · refine h.sendLast fun hterm => ?_
    refine hm.answerVote ht (hterm ?_) fun _ hf => by cases hf
    rcases ht with ⟨-, rfl⟩ | ⟨-, rfl⟩ <;> rfl
  have hvt : Raft.isVoteType t = true := by rcases ht with ⟨-, rfl⟩ | ⟨-, rfl⟩ <;> rfl
  rcases ht with ⟨hv, rfl⟩ | ⟨hv, rfl⟩
  · -- A vote.
    have hterm : m.term = r.term := by
      rcases htype with ⟨-, h1⟩ | h1
      · exact h1
      · rw [hv] at h1
        cases h1
    have hm' := hm
    unfold MessageOK at hm'
    simp only [hv] at hm'
    obtain ⟨hne, hfrom, hcand, hidx, hlogTerm⟩ := hm'
    rw [hterm] at hcand hidx hlogTerm
    obtain ⟨hcan, hup⟩ := hcan
    rw [hidx, hlogTerm, hn.uncompacted.isUpToDate_iff] at hup
    have hmove : ∃ s', Moves G.setting r.id s s' ∧ Sim G s' { r with vote := m.fromId } ∧
        s'.grant r.id r.term = some m.fromId := by
      by_cases hold : r.vote = m.fromId
      · refine ⟨s, Relation.ReflTransGen.refl, ?_, ?_⟩
        · rw [← hold]
          exact h
        · rw [hn.vote, if_neg (hold ▸ hfrom), hold]
      · refine h.vote hfrom ?_ hcand hup
        simp only [Raft.canVote, hv, beq_iff_eq, hold, Bool.or_eq_true, Bool.and_eq_true,
          reduceCtorEq, false_and, or_false, false_or] at hcan
        exact hcan.1
    obtain ⟨s', hmoves, hsim, hgrant⟩ := hmove
    refine Refines.of_moves hmoves ?_
    refine Secures.bind (r.send_spec _) ?_
    rintro r' ⟨rfl, hsend⟩
    rw [if_pos hv]
    refine Secures.pure ?_
    have hok : MessageOK G s' (Raft.stamped { r with vote := m.fromId } {
        toId := m.fromId, term := m.term, type := .msgVoteResp }) :=
      ⟨hne, fun _ => ⟨hself, by rw [hterm]; exact hgrant⟩⟩
    refine Sim.refines_of_id ((hsim.queue hok).congr ?_) rfl
    rfl
  · -- A pre-vote, of which nothing is recorded.
    refine Secures.bind (h.send fun hterm => hm.answerVote (Or.inr ⟨hv, rfl⟩) (hterm hvt)
      fun hf => by cases hf) ?_
    rintro r' ⟨hsim, ms, rfl⟩
    rw [if_neg (by rw [hv]; simp)]
    exact Secures.pure hsim.refines

/-- The answer to a poll that a candidate would count as a vote. -/
def Raft.strayPreVote (r : Raft) (m : Message) : Prop :=
  m.type = .msgPreVoteResp ∧ m.reject = false ∧ r.term ≤ m.term ∧ r.state = .candidate ∧
    r.votes.lookup m.fromId = none

instance (r : Raft) (m : Message) : Decidable (r.strayPreVote m) := by
  unfold Raft.strayPreVote
  exact inferInstance

/-- `step_candidate` on an answer keeps the relation, unless it counts the answer to a poll as a
vote. -/
theorem Sim.stepCandidateVoteResp (h : Sim G s r) {m : Message} (hm : MessageOK G s m)
    (htype : m.type = .msgVoteResp ∧ m.term = r.term ∨ m.type = .msgPreVoteResp ∧ r.term ≤ m.term)
    (hto : m.type = .msgVoteResp → m.toId = r.id) (hstray : ¬ r.strayPreVote m) :
    LogSafe (r.stepCandidateVoteResp m) (Refines G s r.id) := by
  have hn := h.node
  obtain ⟨votes, hpoll, h₁, hcount⟩ := h.poll m.fromId (!m.reject) fun hc hv hlook => by
    rcases htype with ⟨hv', hterm⟩ | ⟨hv', hterm⟩
    · unfold MessageOK at hm
      simp only [hv'] at hm
      obtain ⟨hmem, hgrant⟩ := hm.2 (by simpa using hv)
      rw [hterm, hto hv'] at hgrant
      exact ⟨Or.inr hmem, hgrant⟩
    · exact absurd ⟨hv', by simpa using hv, hterm, hc, hlook⟩ hstray
  unfold Raft.stepCandidateVoteResp
  rw [show r.poll m.fromId (!m.reject) = (votes.entries.countP (·.2), { r with votes := votes }) from
    Prod.ext hcount hpoll]
  refine Secures.ite (fun hq => ?_) fun _ => ?_
  · refine Secures.ite (fun _ => ?_) fun _ => Secures.ite (fun hst => ?_) fun _ => Secures.error fun h => h
    · exact h₁.campaign fun ht => by cases ht
    · refine Secures.bind (h₁.becomeLeader hst hq) ?_
      rintro r' ⟨s', hmoves, hlead⟩
      refine hlead.bcastAppend.mono fun r'' hr'' => ?_
      exact (hr''.leadsOn.after hmoves).refines
  · exact Secures.ite (fun _ => Secures.pure (h₁.becomeFollower (Nat.le_refl _) 0)) fun _ =>
      Secures.pure h₁.refines

end RaftCpp
