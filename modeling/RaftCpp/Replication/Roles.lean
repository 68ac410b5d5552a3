import RaftCpp.Replication.Simulation

/-!
# Changes of role

The ways a node enters a term and a role, and what they are in the protocol: `become_follower` adopts a
term or steps down, `become_candidate` campaigns, and `become_pre_candidate` steps down.
-/

namespace RaftCpp

open Consensus Outcome

variable {G : Group} {s s' : History} {r r' : Raft}

namespace Raft

end Raft

/-- A step of the protocol that changes no leader's log keeps what the relation says of the history. -/
theorem Sim.step (h : Sim G s r) {x : ℕ} (hstep : Step G.setting s x s')
    (hL : s'.leaderLog = s.leaderLog) :
    Inv G.setting s' ∧ Le s s' ∧ ∀ u L, s'.leaderLog u = some L → IndexedFrom 1 L := by
  obtain ⟨hinv, hle⟩ := hstep.inv h.inv
  exact ⟨hinv, hle, fun u L hu => h.indexed u L (hL ▸ hu)⟩

/-- `become_follower` adopts the term, or steps down in the current one. -/
theorem Sim.becomeFollower (h : Sim G s r) {t : ℕ} (ht : r.term ≤ t) (lead : ℕ) :
    Refines G s r.id (r.becomeFollower t lead) := by
  have hn := h.node
  have hnode : ∀ s', Inv G.setting s' → Le s s' →
      (∀ u L, s'.leaderLog u = some L → IndexedFrom 1 L) → s'.term r.id = t →
      s'.role r.id = .follower → s'.log r.id = s.log r.id → s'.commit r.id = s.commit r.id →
      s'.grant r.id t = (if (r.reset t).vote = 0 then none else some (r.reset t).vote) →
      Sim G s' (r.becomeFollower t lead) := by
    intro s' hinv hle hidx hterm hrole hlog hcommit hvote
    refine ⟨hinv, hidx, ?_⟩
    constructor
    · exact (r.reset_id t).symm ▸ hn.id_ne
    · exact fun y => (r.mem_reset_prs t y).trans (hn.voters y)
    · intro hl
      have := hn.voter ((r.reset_isLearner t) ▸ hl)
      exact (r.reset_id t).symm ▸ this
    · exact fun hp => hn.preVote ((r.reset_preVote t) ▸ hp)
    · exact (r.reset_raftLog t).symm ▸ hn.uncompacted
    · simpa [Raft.becomeFollower] using hterm
    · simpa [Raft.becomeFollower, RaftState.role] using hrole
    · simpa [Raft.becomeFollower, hn.log] using hlog
    · simpa [Raft.becomeFollower, hn.commit] using hcommit
    · simpa [Raft.becomeFollower] using hvote
    · exact fun hc => by cases hc
    · exact fun hc => by cases hc
    · intro m hm
      rw [show (r.becomeFollower t lead).msgs = r.msgs from r.reset_msgs t] at hm
      exact (hn.msgs m hm).mono hle
  rcases Nat.eq_or_lt_of_le ht with rfl | hlt
  · have hstep : Step G.setting s r.id (s.stepDown r.id) := .stepDown
    obtain ⟨hinv, hle, hidx⟩ := h.step hstep rfl
    refine ⟨r.reset_id _, _, Relation.ReflTransGen.single hstep, hnode _ hinv hle hidx ?_ ?_ rfl rfl ?_⟩
    · exact hn.term
    · simp [State.stepDown]
    · rw [Raft.reset_vote, if_pos rfl]
      exact hn.vote
  · have hstep : Step G.setting s r.id (s.adopt r.id t) := .adopt t (by rw [hn.term]; exact hlt)
    obtain ⟨hinv, hle, hidx⟩ := h.step hstep rfl
    refine ⟨r.reset_id _, _, Relation.ReflTransGen.single hstep, hnode _ hinv hle hidx ?_ ?_ rfl rfl ?_⟩
    · simp [State.adopt]
    · simp [State.adopt]
    · rw [Raft.reset_vote, if_neg (Nat.ne_of_lt hlt), if_pos rfl]
      -- No node votes in a term that it has not reached.
      cases hg : (s.adopt r.id t).grant r.id t with
      | none => rfl
      | some c =>
        have := (h.inv.elections.grant_term r.id t c hg).2
        rw [hn.term] at this
        omega

/-- `become_candidate` campaigns in the next term. -/
theorem Sim.becomeCandidate (h : Sim G s r) :
    LogSafe r.becomeCandidate fun r' =>
      Refines G s r.id r' ∧ r'.state = .candidate ∧ r'.votes = ∅ := by
  have hn := h.node
  unfold Raft.becomeCandidate
  refine Secures.ite (fun _ => Secures.error fun h => h) fun _ => Secures.ok ⟨⟨r.reset_id _, ?_⟩, rfl, rfl⟩
  have hstep : Step G.setting s r.id (s.campaign r.id) := .campaign
  obtain ⟨hinv, hle, hidx⟩ := h.step hstep rfl
  refine ⟨_, Relation.ReflTransGen.single hstep, hinv, hidx, ?_⟩
  constructor
  · exact (r.reset_id _).symm ▸ hn.id_ne
  · exact fun y => (r.mem_reset_prs _ y).trans (hn.voters y)
  · intro hl
    have := hn.voter ((r.reset_isLearner _) ▸ hl)
    exact (r.reset_id _).symm ▸ this
  · exact fun hp => hn.preVote ((r.reset_preVote _) ▸ hp)
  · exact (r.reset_raftLog _).symm ▸ hn.uncompacted
  · simp [State.campaign, hn.term]
  · simp [State.campaign, RaftState.role]
  · simp [State.campaign, hn.log]
  · simp [State.campaign, hn.commit]
  · simp [State.campaign, hn.term, hn.id_ne]
  · intro _ y hy
    cases hy
  · exact fun hc => by cases hc
  · intro m hm
    rw [Raft.reset_msgs] at hm
    exact (hn.msgs m hm).mono hle

/-- `become_pre_candidate` steps down: the term and the vote stay. -/
theorem Sim.becomePreCandidate (h : Sim G s r) :
    LogSafe r.becomePreCandidate fun r' =>
      Refines G s r.id r' ∧ r'.state = .preCandidate ∧ r'.preVote = r.preVote := by
  have hn := h.node
  unfold Raft.becomePreCandidate
  refine Secures.ite (fun _ => Secures.error fun h => h) fun _ => Secures.ok ⟨⟨rfl, ?_⟩, rfl, rfl⟩
  have hstep : Step G.setting s r.id (s.stepDown r.id) := .stepDown
  obtain ⟨hinv, hle, hidx⟩ := h.step hstep rfl
  refine ⟨_, Relation.ReflTransGen.single hstep, hinv, hidx, ?_⟩
  refine ⟨hn.id_ne, hn.voters, hn.voter, hn.preVote, hn.uncompacted, hn.term, ?_, hn.log, hn.commit,
    hn.vote, fun hc => (by cases hc), fun hc => (by cases hc), fun m hm => (hn.msgs m hm).mono hle⟩
  simp [State.stepDown, RaftState.role]

/-! ## Sending -/

namespace Raft

/-- The message that `send` queues. -/
def stamped (r : Raft) (m : Message) : Message :=
  if isVoteType m.type ∨ m.type = .msgProp ∨ m.type = .msgReadIndex then { m with fromId := r.id }
  else { m with fromId := r.id, term := r.term }

/-- `send` queues the message, or stops. -/
theorem send_spec (r : Raft) (m : Message) :
    LogSafe (r.send m) fun r' =>
      r' = { r with msgs := r.msgs ++ [r.stamped m] } ∧ (isVoteType m.type → m.term ≠ 0) := by
  unfold send stamped
  refine Secures.ite (fun hv => ?_) fun hv => ?_
  · dsimp only at hv
    refine Secures.ite (fun _ => Secures.error fun h => h) fun ht => Secures.ok ⟨?_, fun _ => ht⟩
    rw [if_pos (Or.inl hv)]
  · dsimp only at hv
    refine Secures.ite (fun _ => Secures.error fun h => h) fun ht => ?_
    refine Secures.ite (fun hp => Secures.ok ⟨?_, fun hv' => absurd hv' hv⟩) fun hp =>
      Secures.ok ⟨?_, fun hv' => absurd hv' hv⟩
    · rw [if_neg]
      rintro (h | h | h)
      · exact hv h
      · exact hp.1 h
      · exact hp.2 h
    · dsimp only at hp
      rw [if_pos]
      rw [not_and_or, not_not, not_not] at hp
      exact Or.inr hp

end Raft

end RaftCpp
