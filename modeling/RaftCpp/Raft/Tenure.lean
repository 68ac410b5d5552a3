import RaftCpp.Raft.HardState

/-!
# A leader and its events

What a leader does on an event, as long as it leads its term: a sequence of the moves of a leader. A node
that steps down, or enters another term, does not come back to its term as the leader.
-/

namespace RaftCpp

open Outcome

variable {c : Cause} {r r' : Raft}

namespace Raft

/-- What a leader does on a check of its quorum. -/
def afterCheck (r : Raft) : Raft := if ¬ r.checkQuorumActive then r.becomeFollower r.term 0 else r

/-- The check decides the role. -/
theorem afterCheck_state (hl : r.state = .leader) :
    r.afterCheck.state = if r.checkQuorumActive then .leader else .follower := by
  unfold afterCheck
  by_cases hact : r.checkQuorumActive = true
  · rw [if_neg (not_not.mpr hact), if_pos hact, hl]
  · rw [if_pos hact, if_neg hact]
    rfl

/-- `step` on a check of the quorum. -/
theorem step_checkQuorum (hl : r.state = .leader) {m : Message} (htype : m.type = .msgCheckQuorum)
    (hterm : m.term = 0 ∨ m.term = r.term) : r.step m = .ok (.ok, r.afterCheck) := by
  have hbody : r.stepBody m = .ok (.ok, r.afterCheck) := by
    unfold stepBody stepRole
    simp only [htype, hl]
    unfold stepLeader
    simp only [htype]
    rfl
  unfold step
  rw [hbody]
  split_ifs
  · rfl
  · omega
  · omega
  · omega
  · rfl

/-- `step` on a beat of the clock. -/
theorem step_beat (hl : r.state = .leader) {m : Message} (htype : m.type = .msgBeat)
    (hterm : m.term = 0) :
    r.step m = (do
      let r' ← r.bcastHeartbeat
      return (.ok, r')) := by
  unfold step stepBody stepRole stepLeader
  rw [if_pos hterm]
  simp only [htype, hl]

/-- What a leader does in its role: it goes on to lead, or the check of its quorum ends its leadership. -/
theorem leads_stepRole (hl : r.state = .leader) (m : Message) :
    Ensures (r.stepRole m) fun q =>
      LeaderCourse (.step m) r r q.2 ∨ q.2 = r.becomeFollower r.term 0 := by
  unfold stepRole
  rw [hl]
  by_cases hcheck : m.type = .msgCheckQuorum
  · unfold stepLeader
    simp only [hcheck]
    refine Ensures.pure ?_
    dsimp only
    split_ifs
    · exact Or.inl .refl
    · exact Or.inr rfl
  · exact (leads_stepLeader hl rfl hcheck).mono fun q hq => Or.inl hq

/-- What a leader does past the check of the term: it goes on to lead, or the check of its quorum ends its
leadership. -/
theorem leads_stepBody (hl : r.state = .leader) (m : Message) :
    Ensures (r.stepBody m) fun q =>
      LeaderCourse (.step m) r r q.2 ∨ q.2 = r.becomeFollower r.term 0 := by
  have hvote : Ensures (do
      let r' ← r.stepVote m
      return (Status.ok, r')) fun q =>
        LeaderCourse (.step m) r r q.2 ∨ q.2 = r.becomeFollower r.term 0 :=
    Ensures.bind (leads_stepVote rfl) fun r' hr' => Ensures.pure (Or.inl hr')
  unfold stepBody
  split
  · -- A leader does not campaign.
    unfold stepHup
    rw [if_pos hl]
    exact Ensures.pure (Or.inl .refl)
  · exact hvote
  · exact hvote
  · exact leads_stepRole hl m

/-- What `step` ensures: the message is processed past the check of the term, by the node as it is or in
the term of the message, or it is ignored, or the node answers a message of a lower term. -/
theorem step_ensures {m : Message} {P : Status × Raft → Prop} (hbody : Ensures (r.stepBody m) P)
    (hhigher : ∀ lead, m.term ≠ 0 → r.term < m.term →
      Ensures ((r.becomeFollower m.term lead).stepBody m) P)
    (hlease : P (.ok, r)) (hlower : Ensures (r.stepLowerTerm m) fun r' => P (.ok, r')) :
    Ensures (r.step m) P := by
  unfold step
  refine Ensures.ite (fun _ => hbody) fun hzero => ?_
  refine Ensures.ite (fun hlt => ?_) fun _ => ?_
  · refine Ensures.ite (fun _ => Ensures.pure hlease) fun _ => ?_
    unfold stepHigherTerm
    by_cases hpre : m.type = .msgPreVote ∨ m.type = .msgPreVoteResp ∧ ¬ m.reject = true
    · rw [if_pos hpre]
      exact hbody
    · rw [if_neg hpre]
      refine Ensures.bind (P := fun r' => ∃ lead, r' = r.becomeFollower m.term lead) ?_ ?_
      · refine Ensures.bind Ensures.any fun _ _ => ?_
        exact Ensures.ite (fun _ => Ensures.pure ⟨_, rfl⟩) fun _ => Ensures.pure ⟨_, rfl⟩
      · rintro r' ⟨lead, rfl⟩
        exact hhigher lead hzero hlt
  · refine Ensures.ite (fun _ => ?_) fun _ => hbody
    exact Ensures.bind hlower fun r' hr' => Ensures.pure hr'

/-- What a leader does on a message, unless it steps down or enters another term. -/
theorem leads_step (hl : r.state = .leader) (m : Message) :
    Ensures (r.step m) fun q =>
      q.2.state = .leader → q.2.term = r.term → LeaderCourse (.step m) r r q.2 := by
  apply step_ensures
  · refine (leads_stepBody hl m).mono fun q hq hst _ => hq.resolve_right fun heq => ?_
    rw [heq] at hst
    cases hst
  · -- The node enters the term of the message, and does not come back.
    intro lead hzero hlt
    have hterm : (r.becomeFollower m.term lead).term = m.term := r.reset_term m.term
    refine (moves_stepBody (c := .step m) rfl (Or.inr (Or.inl hterm.symm))).mono
      fun q hq _ heq => ?_
    have hle := (hq.hardKept fun m' hm' r' => ?_).1
    · rw [hterm, heq] at hle
      exact absurd hlt (not_lt.mpr hle)
    · cases hm'
      simp [trusts, hzero]
  · exact fun _ _ => .refl
  · exact (leads_stepLowerTerm m).mono fun r' hr' _ _ => hr'

/-- What the tick of a leader ensures: it goes on, with other timers and perhaps without its transfer, and it may
beat then, or the check of its quorum ends its leadership. -/
theorem tick_leader_ensures (hl : r.state = .leader) {P : Raft → Prop}
    (hstay : ∀ heartbeat election transferee, transferee = r.leadTransferee ∨ transferee = 0 → P { r with
      heartbeatElapsed := heartbeat, electionElapsed := election, leadTransferee := transferee })
    (hbeat : ∀ heartbeat election transferee, transferee = r.leadTransferee ∨ transferee = 0 →
      Ensures ({ r with
        heartbeatElapsed := heartbeat
        electionElapsed := election
        leadTransferee := transferee } : Raft).bcastHeartbeat P)
    (hdown : ∀ heartbeat election, P ({ r with
      heartbeatElapsed := heartbeat, electionElapsed := election }.becomeFollower r.term 0)) :
    Ensures r.tick P := by
  have hcheck : ∀ heartbeat election, Ensures ({ r with
      heartbeatElapsed := heartbeat, electionElapsed := election } : Raft).tickCheckQuorum fun r₁ =>
        r₁ = { r with heartbeatElapsed := heartbeat, electionElapsed := election } ∨
          r₁ = { r with heartbeatElapsed := heartbeat, electionElapsed := election }.becomeFollower r.term 0 := by
    intro heartbeat election
    unfold tickCheckQuorum
    refine Ensures.ite (fun _ => ?_) fun _ => Ensures.pure (Or.inl rfl)
    rw [step_checkQuorum (by exact hl) rfl (Or.inl rfl)]
    refine Ensures.pure ?_
    unfold afterCheck
    split_ifs
    · exact Or.inl rfl
    · exact Or.inr rfl
  have hquorum : ∀ heartbeat election, Ensures ({ r with
      heartbeatElapsed := heartbeat, electionElapsed := election } : Raft).tickQuorum fun r₁ =>
        (∃ election transferee, (transferee = r.leadTransferee ∨ transferee = 0) ∧ r₁ = { r with
          heartbeatElapsed := heartbeat, electionElapsed := election, leadTransferee := transferee }) ∨
        ∃ election, r₁ =
          { r with heartbeatElapsed := heartbeat, electionElapsed := election }.becomeFollower r.term 0 := by
    intro heartbeat election
    unfold tickQuorum
    refine Ensures.ite (fun _ => ?_) fun _ => Ensures.pure (Or.inl ⟨election, r.leadTransferee, Or.inl rfl, rfl⟩)
    refine Ensures.bind (hcheck _ _) fun r₁ h₁ => ?_
    obtain rfl | rfl := h₁
    · refine Ensures.ite (fun _ => Ensures.pure (Or.inl ⟨0, 0, Or.inr rfl, rfl⟩)) fun _ => ?_
      exact Ensures.pure (Or.inl ⟨0, r.leadTransferee, Or.inl rfl, rfl⟩)
    · exact Ensures.ite (fun hst => nomatch hst.1) fun _ => Ensures.pure (Or.inr ⟨0, rfl⟩)
  rw [tick_leader hl]
  unfold tickHeartbeat
  refine Ensures.bind (hquorum _ _) fun r₁ h₁ => ?_
  obtain ⟨election, transferee, htransferee, rfl⟩ | ⟨election, rfl⟩ := h₁
  · rw [if_neg (not_not.mpr (by exact hl))]
    refine Ensures.ite (fun _ => ?_) fun _ => Ensures.pure (hstay _ _ _ htransferee)
    rw [step_beat (by exact hl) rfl rfl]
    refine Ensures.bind (P := fun q => P q.2) ?_ fun q hq => Ensures.pure hq
    exact Ensures.bind (hbeat _ _ _ htransferee) fun r' hr' => Ensures.pure hr'
  · exact Ensures.ite (fun _ => Ensures.pure (hdown _ _)) fun hst => absurd (not_not.mp hst) nofun

/-- What a leader does on a tick: it goes on to lead, or the check of its quorum ends its leadership. -/
theorem leads_tick (hl : r.state = .leader) :
    Ensures r.tick fun r' => LeaderCourse .tick r r r' ∨ ∃ heartbeat election,
      r' = { r with heartbeatElapsed := heartbeat, electionElapsed := election }.becomeFollower r.term 0 := by
  have hidle : ∀ heartbeat election transferee, LeaderCourse .tick r r { r with
      heartbeatElapsed := heartbeat, electionElapsed := election, leadTransferee := transferee } :=
    fun heartbeat election transferee =>
      (LeaderMove.idle election heartbeat transferee r.uncommittedSize).course
  refine tick_leader_ensures hl (fun _ _ _ _ => Or.inl (hidle _ _ _)) (fun _ _ _ _ => ?_)
    fun _ _ => Or.inr ⟨_, _, rfl⟩
  refine (leads_bcastHeartbeatWithCtx (c := .tick) (s := r) (Or.inl (by exact hl)) _).mono fun r' hr' => ?_
  exact Or.inl ((hidle _ _ _).trans hr')

end Raft

/-- On a message, the node steps it or ignores it. -/
theorem Host.stepped {h h' : Host} {e : HostEvent} {m : Message} (hc : e.cause = some (.step m))
    (hh : h.handle e = .ok h') :
    h'.node.raft = h.node.raft ∨ ∃ status, h.node.raft.step m = .ok (status, h'.node.raft) := by
  have hstep : ∀ {p : Status × RawNode}, h.node.stepRaft m = .ok p →
      ∃ status, h.node.raft.step m = .ok (status, p.2.raft) := fun {p} hp => by
    obtain ⟨q, hq, hp⟩ := bind_eq_ok.mp hp
    cases hp
    exact ⟨q.1, hq⟩
  cases e with
  | step m =>
    cases hc
    obtain ⟨p, hp, hh⟩ := bind_eq_ok.mp hh
    cases hh
    unfold RawNode.step at hp
    split_ifs at hp
    · cases hp
      exact Or.inl rfl
    · exact Or.inr (hstep hp)
    · cases hp
      exact Or.inl rfl
  | call m =>
    cases hc
    obtain ⟨p, hp, hh⟩ := bind_eq_ok.mp hh
    cases hh
    exact Or.inr (hstep hp)
  | _ => cases hc

/-- What a leader does on a message or a tick, as long as it leads its term. -/
theorem Host.leads_handle {h h' : Host} {e : HostEvent} (hc : e.cause = some c) (hne : c ≠ .confChange)
    (hh : h.handle e = .ok h') (hl : h.node.raft.state = .leader) (hl' : h'.node.raft.state = .leader)
    (hterm : h'.node.raft.term = h.node.raft.term) :
    LeaderCourse c h.node.raft h.node.raft h'.node.raft := by
  cases c with
  | step m =>
    obtain heq | ⟨status, hstep⟩ := stepped hc hh
    · rw [heq]
    · exact Raft.leads_step hl m _ hstep hl' hterm
  | tick =>
    cases e with
    | tick =>
      obtain ⟨n, hn, hh⟩ := bind_eq_ok.mp hh
      cases hh
      obtain ⟨r, hr, hn⟩ := bind_eq_ok.mp hn
      cases hn
      obtain hleads | ⟨_, _, rfl⟩ := Raft.leads_tick hl r hr
      · exact hleads
      · cases hl'
    | _ => cases hc
  | confChange => exact absurd rfl hne

end RaftCpp
