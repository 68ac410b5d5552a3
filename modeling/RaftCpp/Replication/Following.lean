import RaftCpp.Replication.Roles

/-!
# Following

A follower that appends a part of the leader's log acknowledges it in the protocol, and a follower that
learns of a commit index advances its own.
-/

namespace RaftCpp

open Consensus Outcome

variable {G : Group} {s s' : History} {r r' : Raft}

/-- Queuing a message that the history supports keeps the relation. -/
theorem Sim.queue (h : Sim G s r) {m : Message} (hm : MessageOK G s m) :
    Sim G s { r with msgs := r.msgs ++ [m] } := by
  have hn := h.node
  refine ⟨h.inv, h.indexed, ?_⟩
  refine ⟨hn.id_ne, hn.voters, hn.voter, hn.preVote, hn.uncompacted, hn.term, hn.role, hn.log,
    hn.commit, hn.vote, hn.votes, fun hl y p hp => ?_, fun m' hm' => ?_⟩
  · obtain ⟨h1, h2, h3, h4⟩ := hn.progress hl y p hp
    exact ⟨h1, h2, h3, h4⟩
  · rcases List.mem_append.mp hm' with hm' | hm'
    · exact hn.msgs m' hm'
    · rw [List.mem_singleton.mp hm']
      exact hm

/-- A sent message has to be one that the history supports, once the node is known to be able to send
it. -/
theorem Sim.send (h : Sim G s r) {m : Message}
    (hm : (Raft.isVoteType m.type → m.term ≠ 0) → MessageOK G s (r.stamped m)) :
    LogSafe (r.send m) fun r' => Sim G s r' ∧ ∃ ms, r' = { r with msgs := ms } := by
  refine (r.send_spec m).mono ?_
  rintro r' ⟨rfl, ht⟩
  exact ⟨h.queue (hm ht), _, rfl⟩

/-- A message of a follower that ends a handler. -/
theorem Sim.sendLast (h : Sim G s r) {m : Message}
    (hm : (Raft.isVoteType m.type → m.term ≠ 0) → MessageOK G s (r.stamped m)) :
    LogSafe (r.send m) (Refines G s r.id) := by
  refine (h.send hm).mono ?_
  rintro r' ⟨hsim, ms, rfl⟩
  exact hsim.refines

/-- Moving the commit index over what is committed. -/
theorem Sim.advance (h : Sim G s r) {k : ℕ} (hk : k ≤ r.raftLog.toList.length)
    (hc : Committed G.setting s r.term (r.raftLog.toList.take k)) :
    ∃ s', Moves G.setting r.id s s' ∧ Le s s' ∧
      Sim G s' { r with raftLog := { r.raftLog with committed := k } } := by
  have hn := h.node
  have hstep : Step G.setting s r.id (s.advance r.id k) :=
    .advance k (by rw [hn.log]; exact hk) (by rw [hn.term, hn.log]; exact hc)
  obtain ⟨hinv, hle, hidx⟩ := h.step hstep rfl
  refine ⟨_, Relation.ReflTransGen.single hstep, hle, hinv, hidx, ?_⟩
  refine ⟨hn.id_ne, hn.voters, hn.voter, hn.preVote, hn.uncompacted.committed k, hn.term, hn.role,
    hn.log, by simp [State.advance], hn.vote, hn.votes, fun hst y p hp => ?_,
    fun m hm => (hn.msgs m hm).mono hle⟩
  obtain ⟨h1, h2, h3, h4⟩ := hn.progress hst y p hp
  exact ⟨h1, h2, h3, h4⟩

/-- Taking over a part of the leader's log, and acknowledging it. -/
theorem Sim.accept (h : Sim G s r) (hst : r.state = .follower) {L : List Entry}
    (hL : s.leaderLog r.term = some L) {k : ℕ} (hk : k ≤ L.length) {l : RaftLog}
    (hl : l.Uncompacted) (hp : L.take k <+: l.toList)
    (hlist : l.toList = r.raftLog.toList ∨
      (l.toList = L.take k ∧ ∃ i < k, r.raftLog.toList[i]? ≠ L[i]?))
    (hcom : l.committed = r.raftLog.committed) :
    ∃ s', Moves G.setting r.id s s' ∧ Le s s' ∧ Sim G s' { r with raftLog := l } ∧
      k ≤ s'.ack r.id r.term := by
  have hn := h.node
  have hrole : s.role r.id = .follower := by rw [hn.role, hst]; rfl
  have hstep : Step G.setting s r.id (s.accept r.id k l.toList) :=
    .accept k l.toList L hrole (by rw [hn.term]; exact hL) hk hp (by rw [hn.log]; exact hlist)
  obtain ⟨hinv, hle, hidx⟩ := h.step hstep rfl
  refine ⟨_, Relation.ReflTransGen.single hstep, hle, ⟨hinv, hidx, ?_⟩, ?_⟩
  · refine ⟨hn.id_ne, hn.voters, hn.voter, hn.preVote, hl, hn.term, hn.role, ?_, ?_, hn.vote,
      hn.votes, fun hlead => ?_, fun m hm => (hn.msgs m hm).mono hle⟩
    · simp [State.accept]
    · exact hn.commit.trans hcom.symm
    · rw [show r.state = .leader from hlead] at hst
      cases hst
  · rw [Acks.ack_accept, if_pos ⟨rfl, hn.term.symm⟩]
    exact Nat.le_max_right _ _

/-- The log of the leader of the node's term is one that the node may append parts of. -/
theorem Sim.appendable (h : Sim G s r) {u : ℕ} {L : List Entry} (hL : s.leaderLog u = some L) :
    RaftLog.Appendable r.raftLog.toList L where
  indexed := h.indexed u L hL
  pos := h.inv.logs.leader_pos u L hL
  agree _ hn ht := h.inv.logs.take_eq_leader (h.node.log ▸ h.inv.logs.matching_log r.id) hL hn ht

/-- What the node has committed is in the log of the leader of its term. -/
theorem Sim.committed_isPrefix (h : Sim G s r) {L : List Entry}
    (hL : s.leaderLog r.term = some L) :
    r.raftLog.committed ≤ r.raftLog.toList.length ∧
      Committed G.setting s r.term (r.raftLog.toList.take r.raftLog.committed) ∧
      r.raftLog.toList.take r.raftLog.committed <+: L := by
  have hn := h.node
  have hle := h.inv.commits.commit_le r.id
  have hc := h.inv.commits.committed r.id
  rw [hn.log, hn.commit] at hle hc
  rw [hn.term] at hc
  exact ⟨hle, hc, h.inv.isPrefix_leaderLog hc hL⟩

/-- `handle_append_entries` is simulated by taking over the leader's log, and then advancing. -/
theorem Sim.handleAppendEntries (h : Sim G s r) (hst : r.state = .follower) {m : Message}
    (hm : MessageOK G s m) (htype : m.type = .msgApp) (hterm : m.term = r.term) :
    LogSafe (r.handleAppendEntries m) (Refines G s r.id) := by
  have hn := h.node
  unfold MessageOK at hm
  simp only [htype] at hm
  obtain ⟨hne, L, hL, hidx, hlogTerm, hes, hcle, hcom⟩ := hm
  rw [hterm] at hne hL hcom
  obtain ⟨hclen, hcc, hcp⟩ := h.committed_isPrefix hL
  have hctake : (r.raftLog.toList.take r.raftLog.committed).length = r.raftLog.committed := by
    simp [hclen]
  unfold Raft.handleAppendEntries
  refine Secures.ite (fun hlt => ?_) fun hge => ?_
  · -- The node acknowledges what it has committed, which the leader's log holds.
    have hp : L.take r.raftLog.committed <+: r.raftLog.toList := by
      rw [take_eq_of_isPrefix hcp hctake.ge, List.take_take, Nat.min_self]
      exact List.take_prefix _ _
    obtain ⟨s', hmoves, -, hsim, hack⟩ := h.accept hst hL (hctake ▸ hcp.length_le) hn.uncompacted
      hp (Or.inl rfl) rfl
    exact Refines.of_moves hmoves (hsim.sendLast fun _ => ⟨hne, fun _ => hack⟩)
  · rw [hlogTerm]
    refine Secures.bind (RaftLog.maybeAppend_spec hn.uncompacted (h.appendable hL) hidx hes hclen hcp
      m.commit) ?_
    rintro ⟨last, l⟩ (⟨hlast, hl⟩ | ⟨hlast, hl, hp, hlist, hcommit, hlen⟩)
    · dsimp only at hlast hl ⊢
      subst hlast hl
      exact h.sendLast fun _ => ⟨hne, fun hf => by cases hf⟩
    dsimp only at hlast hl hp hlist hcommit hlen ⊢
    subst hlast
    have hk : m.index + m.entries.length ≤ L.length := by
      have := hes.length_le
      rw [List.length_drop] at this
      omega
    -- First the entries, with the commit index as it was.
    obtain ⟨s₁, hm₁, hle₁, h₁, hack⟩ := h.accept hst hL hk (hl.committed r.raftLog.committed) hp
      hlist rfl
    have hL₁ : ∃ L₁, s₁.leaderLog r.term = some L₁ ∧ L <+: L₁ := hle₁.leaderLog _ _ hL
    -- Then the commit index.
    have hcom₁ : Committed G.setting s₁ r.term (l.toList.take l.committed) := by
      rw [hcommit]
      rcases Nat.le_total r.raftLog.committed (min m.commit (m.index + m.entries.length)) with
        hmax | hmax
      · rw [Nat.max_eq_right hmax]
        have htake : l.toList.take (min m.commit (m.index + m.entries.length)) =
            L.take (min m.commit (m.index + m.entries.length)) := by
          rw [take_eq_of_isPrefix hp (by rw [List.length_take]; omega), List.take_take,
            Nat.min_eq_left (Nat.min_le_right _ _)]
        rw [htake]
        exact (hcom.of_isPrefix (take_isPrefix_take L (Nat.min_le_left _ _))).mono hle₁
          (Nat.le_refl _)
      · rw [Nat.max_eq_left hmax]
        have := (h₁.inv.commits.committed r.id)
        rw [h₁.node.log, h₁.node.commit, h₁.node.term] at this
        exact this
    obtain ⟨s₂, hm₂, hle₂, h₂⟩ := h₁.advance (k := l.committed) hlen hcom₁
    exact Refines.of_moves (hm₁.trans hm₂)
      (h₂.sendLast fun _ => ⟨hne, fun _ => hack.trans (hle₂.ack _ _)⟩)

/-- `handle_heartbeat` is simulated by advancing: the node acknowledged the log up to the commit index
it is told. -/
theorem Sim.handleHeartbeat (h : Sim G s r) {m : Message} (hm : MessageOK G s m)
    (htype : m.type = .msgHeartbeat) (hterm : m.term = r.term) (hto : m.toId = r.id) :
    LogSafe (r.handleHeartbeat m) (Refines G s r.id) := by
  have hn := h.node
  unfold MessageOK at hm
  simp only [htype] at hm
  obtain ⟨hne, hack, L, hL, hcle, hcom⟩ := hm
  rw [hterm] at hL hcom hack
  rw [hto] at hack
  obtain ⟨hclen, hcc, hcp⟩ := h.committed_isPrefix hL
  unfold Raft.handleHeartbeat
  -- The log agrees with the leader's up to what the node acknowledged.
  have hnow := h.inv.acks.ack_now r.id L (by rw [hn.term]; exact hL)
  rw [hn.log, hn.term] at hnow
  have hp : L.take m.commit <+: r.raftLog.toList := (take_isPrefix_take L hack).trans hnow
  have hlen : (L.take m.commit).length = m.commit := by simp [hcle]
  have hreach : m.commit ≤ r.raftLog.toList.length := hlen ▸ hp.length_le
  refine Secures.bind (RaftLog.commitTo_spec hn.uncompacted (Or.inr hreach)) ?_
  rintro l rfl
  have hadv : ∃ s', Moves G.setting r.id s s' ∧ Le s s' ∧ Sim G s' { r with
      raftLog := { r.raftLog with committed := max r.raftLog.committed m.commit } } := by
    rcases Nat.le_total r.raftLog.committed m.commit with hmax | hmax
    · rw [Nat.max_eq_right hmax]
      refine h.advance hreach ?_
      rw [take_eq_of_isPrefix hp hlen.ge, List.take_take, Nat.min_self]
      exact hcom
    · rw [Nat.max_eq_left hmax]
      exact h.advance hclen hcc
  obtain ⟨s', hmoves, -, hsim⟩ := hadv
  exact Refines.of_moves hmoves (hsim.sendLast fun _ => trivial)

end RaftCpp
