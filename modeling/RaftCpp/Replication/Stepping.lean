import RaftCpp.Replication.Voting

/-!
# Stepping

`step` and `tick` are simulated: every message that the history supports, and every tick, takes a node to
one that is again related to the history.
-/

namespace RaftCpp

open Consensus Outcome

variable {G : Group} {s s' : History} {r r' : Raft} {i : ℕ}

/-! ## The leader -/

/-- Serving a read keeps the relation. -/
theorem Leads.answerRead (h : Leads G s i r) (req : Message) (index : ℕ) :
    LogSafe (r.answerRead req index) (Leads G s i) := by
  unfold Raft.answerRead
  refine Secures.ite (fun _ => ?_) fun _ => h.send fun _ => trivial
  refine Secures.bind req.readCtx_safe fun ctx _ => Secures.pure ?_
  refine h.congr ?_
  rfl

/-- `step_leader` on a read request keeps the relation. -/
theorem Leads.stepLeaderReadIndex (h : Leads G s i r) (m : Message) :
    LogSafe (r.stepLeaderReadIndex m) (Leads G s i) := by
  unfold Raft.stepLeaderReadIndex
  refine Secures.ite (fun _ => ?_) fun _ => ?_
  · rw [h.sim.node.uncompacted.term_eq]
    refine Secures.ite (fun _ => Secures.pure h) fun _ => ?_
    cases r.readOnly.option with
    | safe =>
      refine Secures.bind (ReadOnly.addRequest_safe _ _ _) fun ro _ => ?_
      refine Secures.bind m.readCtx_safe fun ctx _ => ?_
      refine Leads.bcastHeartbeatWithCtx (h.congr ?_) ctx
      rfl
    | leaseBased => exact h.answerRead m _
  · refine Secures.bind m.readCtx_safe fun ctx _ => Secures.pure ?_
    refine h.congr ?_
    rfl

/-- `step_leader` on a proposal extends the log. -/
theorem Leads.stepLeaderProp (h : Leads G s i r) (m : Message) :
    LogSafe (r.stepLeaderProp m) fun p => Refines G s i p.2 := by
  unfold Raft.stepLeaderProp
  refine Secures.ite (fun _ => Secures.error fun h => h) fun _ => ?_
  refine Secures.ite (fun _ => Secures.pure h.leadsOn.refines) fun _ => ?_
  refine Secures.ite (fun _ => Secures.pure h.leadsOn.refines) fun _ => ?_
  refine Secures.bind ((h.pendingConfIndex _).appendEntry _) ?_
  rintro ⟨appended, r₁⟩ ⟨s₁, hm₁, h₁⟩
  refine Secures.ite (fun _ => Secures.pure (h₁.leadsOn.after hm₁).refines) fun _ => ?_
  exact Secures.bind h₁.bcastAppend fun r₂ h₂ => Secures.pure (h₂.leadsOn.after hm₁).refines

/-- Probing starts behind what the peer is known to hold. -/
theorem Leads.becomeProbe (h : Leads G s i r) {y : ℕ} {p : Progress} (hp : ProgressOK s r y p) :
    ProgressOK s r y p.becomeProbe := by
  have hle := h.sim.inv.acks.ack_le_length (x := y) h.leaderLog.1
  have hm := hp.matched_le
  unfold Progress.becomeProbe
  rw [if_neg hp.no_snapshot]
  exact ⟨Nat.succ_le_succ (Nat.zero_le _), Nat.succ_le_succ (hm.trans hle), hm,
    by simp [Progress.resetState]⟩

/-- So does replicating. -/
theorem Leads.becomeReplicate (h : Leads G s i r) {y : ℕ} {p : Progress}
    (hp : ProgressOK s r y p) : ProgressOK s r y p.becomeReplicate := by
  have hle := h.sim.inv.acks.ack_le_length (x := y) h.leaderLog.1
  have hm := hp.matched_le
  exact ⟨Nat.succ_le_succ (Nat.zero_le _), Nat.succ_le_succ (hm.trans hle), hm,
    by simp [Progress.becomeReplicate, Progress.resetState]⟩

/-- The progress after an acknowledgement says no more than the history. -/
theorem Leads.progressOnAck (h : Leads G s i r) {y : ℕ} {p : Progress} (hp : ProgressOK s r y p)
    (index : ℕ) : LogSafe (Raft.progressOnAck p index) (ProgressOK s r y) := by
  unfold Raft.progressOnAck
  cases hst : p.state with
  | probe => exact Secures.ok (h.becomeReplicate hp)
  | snapshot => exact absurd hst hp.no_snapshot
  | replicate =>
    refine Secures.bind (p.inflights.freeTo_safe index) fun f _ => Secures.pure ?_
    exact ⟨hp.next_pos, hp.next_le, hp.matched_le, by simp⟩

/-- The progress after a refusal says no more than the history. -/
theorem Leads.maybeDecreasesTo (h : Leads G s i r) {y : ℕ} {p : Progress} (hp : ProgressOK s r y p)
    (rejected last : ℕ) : ProgressOK s r y (p.maybeDecreasesTo rejected last).2 := by
  have hle := h.sim.inv.acks.ack_le_length (x := y) h.leaderLog.1
  have hm := hp.matched_le
  have hnext := hp.next_le
  have hpos := hp.next_pos
  unfold Progress.maybeDecreasesTo
  rw [sub64_of_le hpos]
  split_ifs with h1 h2 h3
  · exact hp
  · exact ⟨Nat.succ_le_succ (Nat.zero_le _), Nat.succ_le_succ (hm.trans hle), hm, hp.no_snapshot⟩
  · exact hp
  · -- The probe was for the entry before the next one.
    refine ⟨?_, ?_, hm, hp.no_snapshot⟩
    · dsimp only
      split_ifs <;> omega
    · dsimp only
      split_ifs <;> omega

/-- What the leader commits and sends after an acknowledgement that was news. -/
theorem Leads.commitOnAck (h : Leads G s i r) (peer : ℕ) (oldPaused : Bool) :
    LogSafe (r.commitOnAck peer oldPaused) (LeadsOn G s i) := by
  unfold Raft.commitOnAck
  refine Secures.bind h.maybeCommit ?_
  rintro ⟨committed, r₁⟩ ⟨s₁, hm₁, h₁⟩
  refine Secures.ite (fun _ => ?_) fun _ => ?_
  · exact h₁.bcastAppend.mono fun r₂ h₂ => h₂.leadsOn.after hm₁
  refine Secures.ite (fun _ => ?_) fun _ => Secures.pure (h₁.leadsOn.after hm₁)
  exact (h₁.sendAppend peer).mono fun r₂ h₂ => h₂.leadsOn.after hm₁

/-- What the leader does after an acknowledgement that was news. -/
theorem Leads.sendOnAck (h : Leads G s i r) (peer : ℕ) (oldPaused : Bool) :
    LogSafe (r.sendOnAck peer oldPaused) (Refines G s i) := by
  unfold Raft.sendOnAck
  refine Secures.bind (h.commitOnAck peer oldPaused) ?_
  rintro r₂ ⟨s₂, hm₂, h₂⟩
  refine Refines.of_moves hm₂ ?_
  refine Secures.bind (h₂.sendAppendLoop peer _) fun r₃ h₃ => ?_
  refine Secures.bind (r₃.peerProgress_spec peer) fun pr _ => ?_
  refine Secures.ite (fun _ => ?_) fun _ => Secures.pure h₃.leadsOn.refines
  exact (h₃.sendTimeoutNow peer).mono fun r₄ h₄ => h₄.leadsOn.refines

/-- `step_leader` on the answer to an append keeps the relation: the index in it was acknowledged. -/
theorem Leads.stepLeaderAppResp (h : Leads G s i r) {m : Message}
    (hack : m.reject = false → m.index ≤ s.ack m.fromId r.term) {pr : Progress}
    (hpr : ProgressOK s r m.fromId pr) :
    LogSafe (r.stepLeaderAppResp m pr) (Refines G s i) := by
  have hpr₁ : ProgressOK s r m.fromId { pr with recentActive := true } :=
    ⟨hpr.next_pos, hpr.next_le, hpr.matched_le, hpr.no_snapshot⟩
  unfold Raft.stepLeaderAppResp
  dsimp only
  refine Secures.ite (fun _ => ?_) fun hrej => ?_
  · have hpr₂ := h.maybeDecreasesTo hpr₁ m.index m.rejectHint
    generalize Progress.maybeDecreasesTo _ m.index m.rejectHint = q at hpr₂ ⊢
    refine Secures.ite (fun _ => ?_) fun _ => Secures.pure (h.putProgress hpr₂).leadsOn.refines
    have hpr₃ : ProgressOK s r m.fromId
        (if q.2.state = .replicate then q.2.becomeProbe else q.2) := by
      split_ifs
      · exact h.becomeProbe hpr₂
      · exact hpr₂
    exact ((h.putProgress hpr₃).sendAppend m.fromId).mono fun r' h' => h'.leadsOn.refines
  · have hidx := hack (by simpa using hrej)
    have hle := h.sim.inv.acks.ack_le_length (x := m.fromId) h.leaderLog.1
    have hpr₂ := hpr₁.maybeUpdate hidx (hidx.trans hle)
    generalize Progress.maybeUpdate _ m.index = q at hpr₂ ⊢
    refine Secures.ite (fun _ => ?_) fun _ => Secures.pure (h.putProgress hpr₂).leadsOn.refines
    exact Secures.bind (h.progressOnAck hpr₂ m.index) fun p hp =>
      (h.putProgress hp).sendOnAck m.fromId _

/-- Acknowledging a read keeps the relation. -/
theorem Leads.ackRead (h : Leads G s i r) (m : Message) :
    LogSafe (r.ackRead m) (Leads G s i) := by
  have hro : ∀ ro, Leads G s i { r with readOnly := ro } := fun ro => by
    refine h.congr ?_
    rfl
  unfold Raft.ackRead
  refine Secures.ite (fun _ => Secures.pure h) fun _ => ?_
  refine Secures.ite (fun _ => Secures.pure (hro _)) fun _ => ?_
  refine Secures.bind (ReadOnly.advance_safe _ m) ?_
  rintro ⟨rss, ro⟩ -
  exact Secures.foldlM _ (fun r₁ rs _ h₁ => h₁.answerRead rs.req rs.index) _ (hro ro)

/-- `step_leader` on the answer to a heartbeat keeps the relation. -/
theorem Leads.stepLeaderHeartbeatResp (h : Leads G s i r) (m : Message) {pr : Progress}
    (hpr : ProgressOK s r m.fromId pr) :
    LogSafe (r.stepLeaderHeartbeatResp m pr) (Leads G s i) := by
  unfold Raft.stepLeaderHeartbeatResp
  refine Secures.bind (P := ProgressOK s r m.fromId) ?_ fun p hp => ?_
  · unfold Raft.progressOnHeartbeat
    refine Secures.ite (fun _ => ?_) fun _ =>
      Secures.ok ⟨hpr.next_pos, hpr.next_le, hpr.matched_le, hpr.no_snapshot⟩
    exact Secures.bind (InFlights.freeFirstOne_safe _) fun f _ =>
      Secures.pure ⟨hpr.next_pos, hpr.next_le, hpr.matched_le, hpr.no_snapshot⟩
  have h₁ := h.putProgress hp
  refine Secures.ite (fun _ => ?_) fun _ => h₁.ackRead m
  exact Secures.bind (h₁.sendAppend m.fromId) fun r₂ h₂ => h₂.ackRead m

/-- `step_leader` on a request to transfer the leadership keeps the relation. -/
theorem Leads.stepLeaderTransfer (h : Leads G s i r) (m : Message) (pr : Progress) :
    LogSafe (r.stepLeaderTransfer m pr) (Leads G s i) := by
  have hstart : ∀ {r₁ : Raft}, Leads G s i r₁ →
      LogSafe (r₁.startTransfer m.fromId pr) (Leads G s i) := fun {r₁} h₁ => by
    unfold Raft.startTransfer
    refine Secures.ite (fun _ => Secures.ok h₁) fun _ => ?_
    have h₂ : Leads G s i { r₁ with electionElapsed := 0, leadTransferee := m.fromId } := by
      refine h₁.congr ?_
      rfl
    exact Secures.ite (fun _ => h₂.sendTimeoutNow m.fromId) fun _ => h₂.sendAppend m.fromId
  unfold Raft.stepLeaderTransfer
  refine Secures.ite (fun _ => Secures.ok h) fun _ => ?_
  refine Secures.ite (fun _ => ?_) fun _ => hstart h
  refine Secures.ite (fun _ => Secures.ok h) fun _ => hstart ?_
  refine h.congr ?_
  rfl

/-- `step_leader` on the messages that concern the progress of their sender keeps the relation. -/
theorem Leads.stepLeaderPeer (h : Leads G s i r) {m : Message} (hm : MessageOK G s m)
    (hterm : m.type = .msgAppResp → m.term = r.term) :
    LogSafe (r.stepLeaderPeer m) (Refines G s i) := by
  unfold Raft.stepLeaderPeer
  cases hget : r.getProgress m.fromId with
  | none => exact Secures.ok h.leadsOn.refines
  | some pr =>
    have hpr := h.sim.node.progress h.state m.fromId pr hget
    dsimp only
    cases ht : m.type with
    | msgAppResp =>
      unfold MessageOK at hm
      simp only [ht] at hm
      rw [hterm ht] at hm
      exact h.stepLeaderAppResp hm.2 hpr
    | msgHeartbeatResp =>
      exact (h.stepLeaderHeartbeatResp m hpr).mono fun r' h' => h'.leadsOn.refines
    | msgSnapStatus =>
      refine Secures.ok ?_
      unfold Raft.stepLeaderSnapStatus
      rw [if_pos hpr.no_snapshot]
      exact h.leadsOn.refines
    | msgUnreachable =>
      exact Secures.ite (fun _ => Secures.ok (h.putProgress (h.becomeProbe hpr)).leadsOn.refines)
        fun _ => Secures.ok h.leadsOn.refines
    | msgTransferLeader =>
      exact (h.stepLeaderTransfer m pr).mono fun r' h' => h'.leadsOn.refines
    | _ => exact Secures.ok h.leadsOn.refines

/-- `step_leader` keeps the relation. -/
theorem Leads.stepLeader (h : Leads G s i r) {m : Message} (hm : MessageOK G s m)
    (hterm : m.type = .msgAppResp → m.term = r.term) :
    LogSafe (r.stepLeader m) fun p => Refines G s i p.2 := by
  have hpeer : LogSafe (do
      let r ← r.stepLeaderPeer m
      return (Status.ok, r)) fun p => Refines G s i p.2 :=
    Secures.bind (h.stepLeaderPeer hm hterm) fun r' hr' => Secures.pure hr'
  unfold Raft.stepLeader
  cases ht : m.type with
  | msgBeat =>
    exact Secures.bind (h.bcastHeartbeatWithCtx _) fun r' h' => Secures.pure h'.leadsOn.refines
  | msgCheckQuorum =>
    refine Secures.pure ?_
    by_cases hact : ¬ r.checkQuorumActive
    · have := h.sim.becomeFollower (Nat.le_refl _) 0
      rw [h.id] at this
      rwa [if_pos hact]
    · rw [if_neg hact]
      exact h.leadsOn.refines
  | msgProp => exact h.stepLeaderProp m
  | msgReadIndex =>
    exact Secures.bind (h.stepLeaderReadIndex m) fun r' h' => Secures.pure h'.leadsOn.refines
  | _ => exact hpeer

/-! ## The candidate and the follower -/

/-- A message of the current leader makes a candidate a follower, whose handler then takes over. -/
theorem Sim.followThen (h : Sim G s r) {m : Message} (hm : MessageOK G s m)
    (hterm : m.term = r.term) {f : Raft → Result Raft}
    (hf : ∀ {s' : History} {r' : Raft}, Sim G s' r' → MessageOK G s' m → r'.id = r.id →
      r'.term = m.term → r'.state = .follower → LogSafe (f r') (Refines G s' r'.id)) :
    LogSafe (f (r.becomeFollower m.term m.fromId)) (Refines G s r.id) := by
  obtain ⟨hid, s', hmoves, hsim⟩ := h.becomeFollower hterm.ge m.fromId
  refine Refines.of_moves hmoves ?_
  rw [← hid]
  refine hf hsim (hm.mono ?_) hid (r.reset_term _) rfl
  exact (hmoves.inv h.inv).2

/-- A message that the node does not get: a snapshot. -/
theorem MessageOK.not_snap {m : Message} (hm : MessageOK G s m) : m.type ≠ .msgSnap := by
  intro ht
  unfold MessageOK at hm
  simp only [ht] at hm

/-- What the role handlers know of a message's term. -/
def TermOK (r : Raft) (m : Message) : Prop :=
  m.term = 0 ∨ m.term = r.term ∨
    ((m.type = .msgPreVote ∨ m.type = .msgPreVoteResp) ∧ r.term < m.term)

/-- A message of a leader has the node's term. -/
theorem MessageOK.term_eq {m : Message} (hm : MessageOK G s m) (ht : TermOK r m)
    (htype : m.type = .msgApp ∨ m.type = .msgHeartbeat ∨ m.type = .msgVote ∨
      m.type = .msgVoteResp ∨ m.type = .msgAppResp) : m.term = r.term := by
  rcases ht with h0 | hterm | ⟨hpre, -⟩
  · unfold MessageOK at hm
    rcases htype with h1 | h1 | h1 | h1 | h1 <;> simp only [h1] at hm <;> exact absurd h0 hm.1
  · exact hterm
  · rcases htype with h1 | h1 | h1 | h1 | h1 <;> rcases hpre with h2 | h2 <;>
      · rw [h1] at h2
        cases h2

/-- `step_candidate` keeps the relation. -/
theorem Sim.stepCandidate (h : Sim G s r) {m : Message} (hm : MessageOK G s m) (ht : TermOK r m)
    (hto : m.type = .msgVoteResp ∨ m.type = .msgHeartbeat → m.toId = r.id)
    (hstray : ¬ r.strayPreVote m) :
    LogSafe (r.stepCandidate m) fun p => Refines G s r.id p.2 := by
  unfold Raft.stepCandidate
  cases htype : m.type with
  | msgApp =>
    have hterm := hm.term_eq ht (Or.inl htype)
    refine Secures.bind (h.followThen hm hterm fun h' hm' hid ht' hst =>
      h'.handleAppendEntries hst hm' htype ht'.symm) fun r' hr' => Secures.pure hr'
  | msgHeartbeat =>
    have hterm := hm.term_eq ht (Or.inr (Or.inl htype))
    refine Secures.bind (h.followThen hm hterm fun h' hm' hid ht' hst =>
      h'.handleHeartbeat hm' htype ht'.symm ((hto (Or.inr htype)).trans hid.symm))
      fun r' hr' => Secures.pure hr'
  | msgSnap => exact absurd htype hm.not_snap
  | msgVoteResp =>
    have hterm := hm.term_eq ht (Or.inr (Or.inr (Or.inr (Or.inl htype))))
    exact Secures.bind (h.stepCandidateVoteResp hm (Or.inl ⟨htype, hterm⟩)
      (fun _ => hto (Or.inl htype)) hstray) fun r' hr' => Secures.pure hr'
  | msgPreVoteResp =>
    have hle : r.term ≤ m.term := by
      have hm' := hm
      unfold MessageOK at hm'
      simp only [htype] at hm'
      rcases ht with h0 | h1 | ⟨-, h1⟩
      · exact absurd h0 hm'.1
      · exact h1.ge
      · exact Nat.le_of_lt h1
    exact Secures.bind (h.stepCandidateVoteResp hm (Or.inr ⟨htype, hle⟩)
      (fun hv => by rw [htype] at hv; cases hv) hstray) fun r' hr' => Secures.pure hr'
  | _ => exact Secures.pure h.refines

/-- Hearing from the leader does not matter to safety. -/
theorem Sim.heard (h : Sim G s r) (lead : ℕ) :
    Sim G s { r with electionElapsed := 0, lead := lead } := by
  refine h.congr ?_
  rfl

/-- `step_follower` keeps the relation. -/
theorem Sim.stepFollower (h : Sim G s r) (hst : r.state = .follower) {m : Message}
    (hm : MessageOK G s m) (ht : TermOK r m)
    (hto : m.type = .msgVoteResp ∨ m.type = .msgHeartbeat → m.toId = r.id) :
    LogSafe (r.stepFollower m) fun p => Refines G s r.id p.2 := by
  unfold Raft.stepFollower
  cases htype : m.type with
  | msgProp =>
    refine Secures.ite (fun _ => Secures.pure h.refines) fun _ => ?_
    refine Secures.ite (fun _ => Secures.pure h.refines) fun _ => ?_
    refine Secures.bind (h.sendLast fun _ => ?_) fun r' hr' => Secures.pure hr'
    simp [MessageOK, Raft.stamped]
  | msgApp =>
    have hterm := hm.term_eq ht (Or.inl htype)
    exact Secures.bind ((h.heard m.fromId).handleAppendEntries hst hm htype hterm)
      fun r' hr' => Secures.pure hr'
  | msgHeartbeat =>
    have hterm := hm.term_eq ht (Or.inr (Or.inl htype))
    exact Secures.bind ((h.heard m.fromId).handleHeartbeat hm htype hterm (hto (Or.inr htype)))
      fun r' hr' => Secures.pure hr'
  | msgSnap => exact absurd htype hm.not_snap
  | msgTransferLeader | msgReadIndex =>
    refine Secures.ite (fun _ => Secures.pure h.refines) fun _ => ?_
    refine Secures.bind (h.sendLast fun _ => ?_) fun r' hr' => Secures.pure hr'
    simp [MessageOK, Raft.stamped, Raft.isVoteType]
  | msgTimeoutNow =>
    refine Secures.ite (fun _ => ?_) fun _ => Secures.pure h.refines
    exact Secures.bind (h.campaign fun hc => by cases hc) fun r' hr' => Secures.pure hr'
  | msgReadIndexResp =>
    refine Secures.pure ?_
    dsimp only
    unfold Raft.stepFollowerReadIndexResp
    split
    · refine Sim.refines_of_id (h.congr ?_) rfl
      rfl
    · exact h.refines
  | _ => exact Secures.pure h.refines

/-! ## Steps and ticks -/

/-- The handler of the role keeps the relation. -/
theorem Sim.stepRole (h : Sim G s r) {m : Message} (hm : MessageOK G s m) (ht : TermOK r m)
    (hto : m.type = .msgVoteResp ∨ m.type = .msgHeartbeat → m.toId = r.id)
    (hstray : ¬ r.strayPreVote m) :
    LogSafe (r.stepRole m) fun p => Refines G s r.id p.2 := by
  unfold Raft.stepRole
  cases hst : r.state with
  | leader =>
    refine Leads.stepLeader ⟨h, rfl, hst⟩ hm fun htype => ?_
    exact hm.term_eq ht (Or.inr (Or.inr (Or.inr (Or.inr htype))))
  | candidate => exact h.stepCandidate hm ht hto hstray
  | preCandidate => exact h.stepCandidate hm ht hto hstray
  | follower => exact h.stepFollower hst hm ht hto

/-- `step`, past the check of the term, keeps the relation. -/
theorem Sim.stepBody (h : Sim G s r) {m : Message} (hm : MessageOK G s m) (ht : TermOK r m)
    (hto : m.type = .msgVoteResp ∨ m.type = .msgHeartbeat → m.toId = r.id)
    (hstray : ¬ r.strayPreVote m) :
    LogSafe (r.stepBody m) fun p => Refines G s r.id p.2 := by
  unfold Raft.stepBody
  cases htype : m.type with
  | msgHup => exact Secures.bind h.stepHup fun r' hr' => Secures.pure hr'
  | msgVote =>
    have hterm := hm.term_eq ht (Or.inr (Or.inr (Or.inl htype)))
    exact Secures.bind (h.stepVote hm (Or.inl ⟨htype, hterm⟩)) fun r' hr' => Secures.pure hr'
  | msgPreVote =>
    exact Secures.bind (h.stepVote hm (Or.inr htype)) fun r' hr' => Secures.pure hr'
  | _ => exact h.stepRole hm ht hto hstray

/-- `step` keeps the relation, unless it counts the answer to a poll as a vote. -/
theorem Sim.stepRaft (h : Sim G s r) {m : Message} (hm : MessageOK G s m)
    (hto : m.type = .msgVoteResp ∨ m.type = .msgHeartbeat → m.toId = r.id)
    (hstray : ¬ r.strayPreVote m) :
    LogSafe (r.step m) fun p => Refines G s r.id p.2 := by
  unfold Raft.step
  refine Secures.ite (fun h0 => h.stepBody hm (Or.inl h0) hto hstray) fun h0 => ?_
  refine Secures.ite (fun hgt => ?_) fun hgt => ?_
  · refine Secures.ite (fun _ => Secures.ok h.refines) fun _ => ?_
    unfold Raft.stepHigherTerm
    by_cases hpre : m.type = .msgPreVote ∨ (m.type = .msgPreVoteResp ∧ ¬ m.reject)
    · rw [if_pos hpre]
      refine h.stepBody hm (Or.inr (Or.inr ⟨?_, hgt⟩)) hto hstray
      exact hpre.imp_right And.left
    · rw [if_neg hpre]
      -- The node enters the message's term as a follower.
      have hfollow : ∀ lead, LogSafe ((r.becomeFollower m.term lead).stepBody m)
          fun p => Refines G s r.id p.2 := fun lead => by
        obtain ⟨hid, s', hmoves, hsim⟩ := h.becomeFollower (Nat.le_of_lt hgt) lead
        have hle := (hmoves.inv h.inv).2
        have := hsim.stepBody (hm.mono hle) (Or.inr (Or.inl (r.reset_term _).symm))
          (fun hv => (hto hv).trans hid.symm) (fun hs => by cases hs.2.2.2.1)
        rw [hid] at this
        exact this.mono fun p hp => hp.after hmoves
      refine Secures.bind (P := fun r' => ∃ lead, r' = r.becomeFollower m.term lead) ?_ ?_
      · refine Secures.bind (msgTypeToString_safe _) fun _ _ => ?_
        exact Secures.ite (fun _ => Secures.pure ⟨_, rfl⟩) fun _ => Secures.pure ⟨_, rfl⟩
      · rintro r' ⟨lead, rfl⟩
        exact hfollow lead
  · refine Secures.ite (fun hlt => ?_) fun hlt => ?_
    · refine Secures.bind (P := Refines G s r.id) ?_ fun r' hr' => Secures.pure hr'
      unfold Raft.stepLowerTerm
      refine Secures.ite (fun _ => ?_) fun _ => ?_
      · refine h.sendLast fun _ => ⟨?_, fun _ => Nat.zero_le _⟩
        show r.term ≠ 0
        omega
      refine Secures.ite (fun hpre => ?_) fun _ => ?_
      · refine h.sendLast fun _ => ?_
        unfold MessageOK at hm
        simp only [hpre] at hm
        refine ⟨?_, hm.2⟩
        show r.term ≠ 0
        omega
      · exact Secures.bind (msgTypeToString_safe _) fun _ _ =>
          Secures.pure h.refines
    · exact h.stepBody hm (Or.inr (Or.inl (by omega))) hto hstray

/-- A message that a node steps into itself, or that the application does. -/
theorem Sim.stepLocal (h : Sim G s r) {m : Message} (hm : MessageOK G s m)
    (htype : m.type ≠ .msgVoteResp ∧ m.type ≠ .msgHeartbeat ∧ m.type ≠ .msgPreVoteResp) :
    LogSafe (r.step m) fun p => Refines G s r.id p.2 := by
  refine h.stepRaft hm (fun hv => ?_) fun hs => htype.2.2 hs.1
  rcases hv with hv | hv
  · exact absurd hv htype.1
  · exact absurd hv htype.2.1

/-- `tick_election` keeps the relation. -/
theorem Sim.tickElection (h : Sim G s r) : LogSafe r.tickElection (Refines G s r.id) := by
  unfold Raft.tickElection
  refine Secures.ite (fun _ => ?_) fun _ => Secures.pure ?_
  · have h₁ : Sim G s { r with electionElapsed := 0 } := by
      refine h.congr ?_
      rfl
    exact Secures.bind (h₁.stepLocal trivial ⟨nofun, nofun, nofun⟩) fun p hp => Secures.pure hp
  · refine Sim.refines_of_id (h.congr ?_) rfl
    rfl

/-- The part of `tick_heartbeat` at every election timeout keeps the relation. -/
theorem Sim.tickQuorum (h : Sim G s r) : LogSafe r.tickQuorum (Refines G s r.id) := by
  unfold Raft.tickQuorum
  refine Secures.ite (fun _ => ?_) fun _ => Secures.pure h.refines
  have h₁ : Sim G s { r with electionElapsed := 0 } := by
    refine h.congr ?_
    rfl
  refine Secures.bind (P := Refines G s r.id) ?_ ?_
  · unfold Raft.tickCheckQuorum
    refine Secures.ite (fun _ => ?_) fun _ => Secures.pure (h₁.refines_of_id rfl)
    exact Secures.bind (h₁.stepLocal trivial ⟨nofun, nofun, nofun⟩) fun p hp => Secures.pure hp
  · rintro r₂ ⟨hid, s₂, hm₂, h₂⟩
    refine Secures.ite (fun _ => Secures.pure ⟨hid, s₂, hm₂, ?_⟩) fun _ =>
      Secures.pure ⟨hid, s₂, hm₂, h₂⟩
    refine h₂.congr ?_
    rfl

/-- `tick_heartbeat` keeps the relation. -/
theorem Sim.tickHeartbeat (h : Sim G s r) : LogSafe r.tickHeartbeat (Refines G s r.id) := by
  unfold Raft.tickHeartbeat
  have h₁ : Sim G s { r with
      heartbeatElapsed := r.heartbeatElapsed + 1, electionElapsed := r.electionElapsed + 1 } := by
    refine h.congr ?_
    rfl
  refine Secures.bind h₁.tickQuorum ?_
  rintro r₂ ⟨hid, s₂, hm₂, h₂⟩
  refine Refines.of_moves hm₂ ?_
  refine Secures.ite (fun _ => Secures.pure (h₂.refines_of_id hid)) fun _ => ?_
  refine Secures.ite (fun _ => ?_) fun _ => Secures.pure (h₂.refines_of_id hid)
  have h₃ : Sim G s₂ { r₂ with heartbeatElapsed := 0 } := by
    refine h₂.congr ?_
    rfl
  exact Secures.bind (h₃.stepLocal trivial ⟨nofun, nofun, nofun⟩) fun p hp =>
    Secures.pure (hid ▸ hp)

/-- `tick` keeps the relation. -/
theorem Sim.tick (h : Sim G s r) : LogSafe r.tick (Refines G s r.id) := by
  unfold Raft.tick
  cases r.state with
  | leader => exact h.tickHeartbeat
  | _ => exact h.tickElection

end RaftCpp
