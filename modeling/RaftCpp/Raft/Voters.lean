import RaftCpp.Raft.Activity
import RaftCpp.Raft.Asserting
import RaftCpp.Raft.Campaigning

/-!
# Only voters campaign

A node campaigns at its election timeout, on a request of its application, and on a request of the leader to
take over. The first and the last of them look whether the node is a voter, the second one does not. Nor does
the end of a campaign, for which the node may have lost its vote in between.
-/

namespace RaftCpp

open Outcome

variable {r r' : Raft}

namespace Raft

/-! ## Without a look at the membership -/

/-- Whether a request to campaign is followed can be evaluated. -/
instance (r : Raft) : Decidable r.MayHup :=
  let pending : Option (List Entry) :=
    match r.raftLog.slice (r.raftLog.applied + 1) (r.raftLog.committed + 1) RaftLog.unlimited with
    | .ok (.ok, es) => some es
    | _ => none
  decidable_of_iff
    (∃ es ∈ pending, ¬(numOfPendingConf es > 0 ∧ r.raftLog.committed > r.raftLog.applied)) (by
      refine exists_congr fun es => and_congr_left fun _ => ?_
      dsimp only [pending]
      split <;> simp_all)

/-- Past the check of its term, the message starts a campaign, or brings the grants of a quorum. -/
def GoesOn (r : Raft) (m : Message) : Prop :=
  m.type = .msgHup ∧ r.state ≠ .leader ∧ r.MayHup ∨
    (m.type = .msgVoteResp ∨ m.type = .msgPreVoteResp) ∧
      (r.state = .candidate ∨ r.state = .preCandidate) ∧ r.quorum = (r.poll m.fromId (!m.reject)).1

instance (r : Raft) (m : Message) : Decidable (r.GoesOn m) :=
  inferInstanceAs (Decidable (_ ∧ _ ∧ _ ∨ _ ∧ _ ∧ _))

/-- The message starts a campaign, or brings the grants of a quorum. A message of a higher term makes the
node a follower of that term first, unless it is the grant of a pre-vote. -/
def Proceeds (r : Raft) (m : Message) : Prop :=
  (m.term = 0 ∨ m.term = r.term ∨ r.term < m.term ∧ m.type = .msgPreVoteResp ∧ ¬m.reject = true) ∧
      r.GoesOn m ∨
    r.term < m.term ∧ m.type = .msgHup ∧ r.MayHup

instance (r : Raft) (m : Message) : Decidable (r.Proceeds m) :=
  inferInstanceAs (Decidable ((_ ∨ _ ∨ _ ∧ _ ∧ _) ∧ _ ∨ _ ∧ _ ∧ _))

/-- The node follows, or goes on in its role and its term, or is a voter. -/
def Fit (r r' : Raft) : Prop :=
  r'.state = .follower ∨ r'.state = r.state ∧ r'.term = r.term ∨ r'.promotable = true

instance (r r' : Raft) : Decidable (r.Fit r') := inferInstanceAs (Decidable (_ ∨ _ ∧ _ ∨ _))

/-- Nothing happens. -/
theorem Fit.refl (r : Raft) : r.Fit r := Or.inr (Or.inl ⟨rfl, rfl⟩)

/-- A follower that goes on. -/
theorem Fit.of_follower (h : r.Fit r') (hstate : r.state = .follower) (r₀ : Raft) : r₀.Fit r' := by
  obtain hfollow | ⟨hst, -⟩ | hprom := h
  · exact Or.inl hfollow
  · exact Or.inl (hst.trans hstate)
  · exact Or.inr (Or.inr hprom)

/-- A node that keeps its progress of the voters stays a voter. -/
theorem KeepsActive.promotable (h : KeepsActive r r') (hprom : r.promotable = true) :
    r'.promotable = true := by
  obtain ⟨p, hp⟩ := Option.isSome_iff_exists.mp hprom
  obtain ⟨p', hp', -⟩ := h.prs r.id p hp
  unfold Raft.promotable
  rw [h.id, hp']
  rfl

/-! ## Campaigns of a voter -/

/-- A reset keeps a voter a voter. -/
theorem promotable_reset (r : Raft) (t : ℕ) : (r.reset t).promotable = r.promotable := by
  unfold promotable
  rw [Bool.eq_iff_iff, AList.lookup_isSome, AList.lookup_isSome, mem_reset_prs, reset_id]

/-- The requests for votes leave the membership alone. -/
theorem promotable_requestVotes {voteMsg : MessageType} {term : ℕ} {ctx : Bytes} :
    Ensures (r.requestVotes voteMsg term ctx) fun r' => r'.promotable = r.promotable := by
  unfold requestVotes
  refine Ensures.foldlM _ (fun r₁ id _ h₁ => ?_) r rfl
  refine Ensures.ite (fun _ => Ensures.ok h₁) fun _ r₂ hr₂ => ?_
  obtain ⟨rfl, -⟩ := send_eq hr₂
  exact h₁

/-- The assertion of `become_leader` holds for a voter. -/
theorem secures_becomeLeader (hprom : r.promotable = true) :
    Secures (· = Fatal.ownProgressMissing) r.becomeLeader fun r' => r'.promotable = true := by
  have hself : (r.takeLead.prs.lookup r.takeLead.id).isSome = true :=
    (r.promotable_reset r.term).trans hprom
  apply Avoids.secures
  · obtain ⟨p, hp⟩ := Option.isSome_iff_exists.mp hself
    unfold becomeLeader
    simp [hp]
  · refine (leads_becomeLeader (c := .tick) (s := r)).mono fun r' hr' => ?_
    obtain ⟨p, -, hleads⟩ := hr'
    refine KeepsActive.promotable hleads.keepsActive ?_
    show ((r.takeLead.prs.insert r.takeLead.id p.becomeReplicate).lookup r.takeLead.id).isSome = true
    rw [AList.lookup_insert]
    rfl

/-- A voter campaigns for votes. -/
theorem secures_campaignElection (hprom : r.promotable = true) (ctx : Bytes) :
    Secures (· = Fatal.ownProgressMissing) (r.campaignElection ctx) fun r' => r'.promotable = true := by
  unfold campaignElection
  refine Secures.bind (P := fun r₁ => r₁.promotable = true) ?_ fun r₁ h₁ => ?_
  · unfold becomeCandidate
    refine Secures.ite (fun _ => Secures.error nofun) fun _ => Secures.ok ?_
    exact (r.promotable_reset _).trans hprom
  · have hpoll : (r₁.poll r₁.id true).2.promotable = true := h₁
    refine Secures.ite (fun _ => secures_becomeLeader hpoll) fun _ => ?_
    exact (asserted_requestVotes _ _ _ _).secures
      (promotable_requestVotes.mono fun r' hr' => hr'.trans hpoll)

/-- A voter campaigns for pre-votes. -/
theorem secures_campaignPreElection (hprom : r.promotable = true) :
    Secures (· = Fatal.ownProgressMissing) r.campaignPreElection fun r' => r'.promotable = true := by
  unfold campaignPreElection
  refine Secures.bind (P := fun r₁ => r₁.promotable = true) ?_ fun r₁ h₁ => ?_
  · unfold becomePreCandidate
    exact Secures.ite (fun _ => Secures.error nofun) fun _ => Secures.ok hprom
  · have hpoll : (r₁.poll r₁.id true).2.promotable = true := h₁
    refine Secures.ite (fun _ => secures_campaignElection hpoll _) fun _ => ?_
    exact (asserted_requestVotes _ _ _ _).secures
      (promotable_requestVotes.mono fun r' hr' => hr'.trans hpoll)

/-- `step` on a request to campaign. -/
theorem secures_stepHup (h : r.promotable = true ∨ r.state = .leader ∨ ¬r.MayHup) :
    Secures (· = Fatal.ownProgressMissing) r.stepHup r.Fit := by
  unfold stepHup
  refine Secures.ite (fun _ => Secures.pure (.refl r)) fun hne => ?_
  refine Avoids.bindEq (RaftLog.asserted_slice _ _ _ _) fun ⟨status, es⟩ hslice => ?_
  refine Secures.ite (fun _ => Secures.error nofun) fun hst => ?_
  refine Secures.ite (fun _ => Secures.pure (.refl r)) fun hconf => ?_
  obtain rfl := Status.isOk_iff.mp (not_not.mp hst)
  have hprom : r.promotable = true := by
    obtain hprom | hl | hnot := h
    · exact hprom
    · exact absurd hl hne
    · exact absurd ⟨es, hslice, hconf⟩ hnot
  have hfit : ∀ r' : Raft, r'.promotable = true → r.Fit r' := fun r' hr' => Or.inr (Or.inr hr')
  cases r.preVote with
  | true => exact (secures_campaignPreElection hprom).mono hfit
  | false => exact (secures_campaignElection hprom []).mono hfit

/-- `step_candidate` on the answer to a request for a vote or a pre-vote. -/
theorem secures_stepCandidateVoteResp {m : Message}
    (h : r.promotable = true ∨ r.quorum ≠ (r.poll m.fromId (!m.reject)).1) :
    Secures (· = Fatal.ownProgressMissing) (r.stepCandidateVoteResp m) r.Fit := by
  have hfit : ∀ r' : Raft, r'.promotable = true → r.Fit r' := fun r' hr' => Or.inr (Or.inr hr')
  unfold stepCandidateVoteResp
  dsimp only
  refine Secures.ite (fun hq => ?_) fun _ => ?_
  · have hprom : (r.poll m.fromId (!m.reject)).2.promotable = true := h.resolve_right fun hne => hne hq
    refine Secures.ite (fun _ => (secures_campaignElection hprom _).mono hfit) fun _ => ?_
    refine Secures.ite (fun _ => ?_) fun _ => Secures.error nofun
    have hlead : Ensures (r.poll m.fromId (!m.reject)).2.becomeLeader fun r₁ => r₁.state = .leader :=
      (leads_becomeLeader (c := .tick) (s := r)).mono fun r₁ h₁ => h₁.elim fun p hp => hp.2.state
    refine Secures.bind ((secures_becomeLeader hprom).and hlead) fun r₁ ⟨hprom₁, hst₁⟩ => ?_
    refine (asserted_bcastAppend r₁).secures
      ((leads_bcastAppend (c := .tick) (s := r) (Or.inl hst₁)).mono fun r' hr' => ?_)
    exact hfit r' (KeepsActive.promotable hr'.keepsActive hprom₁)
  · refine Secures.ite (fun _ => Secures.pure (Or.inl rfl)) fun _ => Secures.pure ?_
    exact Or.inr (Or.inl ⟨rfl, rfl⟩)

/-! ## Stepping -/

/-- A handler that ends in the role of a follower. -/
theorem Fit.secures_of_steady {c : Cause} {x : Result Raft} {r₁ : Raft} (ha : Asserted x)
    (hx : Ensures x (Steady c r₁)) (hst : r₁.state = .follower) (st : Status) :
    Secures (· = Fatal.ownProgressMissing) (do
      let r' ← x
      return (st, r')) fun q => r.Fit q.2 :=
  Secures.bind (ha.secures hx) fun _ hr' => Secures.pure (Or.inl (hr'.state.trans hst))

/-- `step_candidate`. -/
theorem secures_stepCandidate {m : Message}
    (h : r.promotable = true ∨
      ((m.type = .msgVoteResp ∨ m.type = .msgPreVoteResp) → r.quorum ≠ (r.poll m.fromId (!m.reject)).1)) :
    Secures (· = Fatal.ownProgressMissing) (r.stepCandidate m) fun q => r.Fit q.2 := by
  unfold stepCandidate
  cases htype : m.type with
  | msgApp =>
    exact Fit.secures_of_steady (asserted_handleAppendEntries _ _) (steady_handleAppendEntries rfl htype) rfl _
  | msgHeartbeat =>
    exact Fit.secures_of_steady (c := .tick) (asserted_handleHeartbeat _ _) (steady_handleHeartbeat m) rfl _
  | msgSnap =>
    exact Fit.secures_of_steady (asserted_handleSnapshot _ _) (steady_handleSnapshot rfl htype) rfl _
  | msgVoteResp | msgPreVoteResp =>
    have hcount := h.imp_right fun h => h (by simp [htype])
    exact Secures.bind (secures_stepCandidateVoteResp hcount) fun r' hr' => Secures.pure hr'
  | _ => exact Secures.pure (.refl r)

/-- `step_follower`. -/
theorem secures_stepFollower {m : Message} (hstate : r.state = .follower) :
    Secures (· = Fatal.ownProgressMissing) (r.stepFollower m) fun q => r.Fit q.2 := by
  by_cases htake : m.type = .msgTimeoutNow
  · unfold stepFollower
    simp only [htake]
    refine Secures.ite (fun hprom => ?_) fun _ => Secures.pure (.refl r)
    exact Secures.bind (secures_campaignElection hprom _) fun r' hr' => Secures.pure (Or.inr (Or.inr hr'))
  · refine Avoids.secures ?_ ((steady_stepFollower rfl hstate htake).mono fun q hq =>
      Or.inl (hq.state.trans hstate))
    unfold stepFollower
    cases htype : m.type with
    | msgTimeoutNow => exact absurd htype htake
    | _ => simp

/-- `step` past the check of the term. -/
theorem secures_stepBody {m : Message} (h : r.promotable = true ∨ ¬r.GoesOn m) :
    Secures (· = Fatal.ownProgressMissing) (r.stepBody m) fun q => r.Fit q.2 := by
  have hvote : Secures (· = Fatal.ownProgressMissing) (do
      let r' ← r.stepVote m
      return (Status.ok, r')) fun q => r.Fit q.2 := by
    have hleads : Ensures (r.stepVote m) (LeaderCourse (.step m) r r) := leads_stepVote rfl
    refine Secures.bind ((asserted_stepVote r m).secures hleads) fun r' hr' => Secures.pure ?_
    exact Or.inr (Or.inl ⟨hr'.state, hr'.term⟩)
  have hrole : Secures (· = Fatal.ownProgressMissing) (r.stepRole m) fun q => r.Fit q.2 := by
    have hcandidate : r.state = .candidate ∨ r.state = .preCandidate →
        Secures (· = Fatal.ownProgressMissing) (r.stepCandidate m) fun q => r.Fit q.2 :=
      fun hst => secures_stepCandidate (h.imp_right fun hnot hresp hq => hnot (Or.inr ⟨hresp, hst, hq⟩))
    by_cases hl : r.state = .leader
    · have ha : Asserted (r.stepRole m) := by
        unfold stepRole
        rw [hl]
        exact asserted_stepLeader r m
      refine ha.secures ((leads_stepRole hl m).mono fun q hq => ?_)
      obtain hleads | heq := hq
      · exact Or.inr (Or.inl ⟨hleads.state, hleads.term⟩)
      · rw [heq]
        exact Or.inl rfl
    unfold stepRole
    split
    · next hst => exact absurd hst hl
    · next hst => exact hcandidate (Or.inl hst)
    · next hst => exact hcandidate (Or.inr hst)
    · next hst => exact secures_stepFollower hst
  unfold stepBody
  split
  · next htype =>
    have hup : r.promotable = true ∨ r.state = .leader ∨ ¬r.MayHup := by
      refine h.imp_right fun hnot => ?_
      by_contra hor
      rw [not_or, not_not] at hor
      exact hnot (Or.inl ⟨htype, hor⟩)
    exact Secures.bind (secures_stepHup hup) fun r' hr' => Secures.pure hr'
  · exact hvote
  · exact hvote
  · exact hrole

/-- `step`. -/
theorem secures_step {m : Message} (h : r.promotable = true ∨ ¬r.Proceeds m) :
    Secures (· = Fatal.ownProgressMissing) (r.step m) fun q => r.Fit q.2 := by
  have hbody : (m.term = 0 ∨ m.term = r.term ∨
      r.term < m.term ∧ m.type = .msgPreVoteResp ∧ ¬m.reject = true) →
      Secures (· = Fatal.ownProgressMissing) (r.stepBody m) fun q => r.Fit q.2 :=
    fun hterm => secures_stepBody (h.imp_right fun hnot hgo => hnot (Or.inl ⟨hterm, hgo⟩))
  -- A follower of a higher term campaigns only on a request.
  have hhigher : r.term < m.term → ∀ lead, Secures (· = Fatal.ownProgressMissing)
      ((r.becomeFollower m.term lead).stepBody m) fun q => r.Fit q.2 := by
    intro hlt lead
    have hgo : (r.becomeFollower m.term lead).promotable = true ∨
        ¬(r.becomeFollower m.term lead).GoesOn m := by
      rw [promotable_becomeFollower]
      refine h.imp_right fun hnot hgo => ?_
      obtain ⟨htype, -, hmay⟩ | ⟨-, hst, -⟩ := hgo
      · exact hnot (Or.inr ⟨hlt, htype, mayHup_becomeFollower hmay⟩)
      · obtain hst | hst := hst <;> cases hst
    exact (secures_stepBody hgo).mono fun q hq => hq.of_follower rfl r
  unfold step
  refine Secures.ite (fun hzero => hbody (Or.inl hzero)) fun hzero => ?_
  refine Secures.ite (fun hlt => ?_) fun hle => ?_
  · refine Secures.ite (fun _ => Secures.pure (.refl r)) fun _ => ?_
    unfold stepHigherTerm
    by_cases hpre : m.type = .msgPreVote ∨ m.type = .msgPreVoteResp ∧ ¬m.reject = true
    · rw [if_pos hpre]
      show Secures _ (r.stepBody m) _
      obtain htype | hgrant := hpre
      · refine secures_stepBody (Or.inr fun hgo => ?_)
        obtain ⟨hup, -⟩ | ⟨hresp, -⟩ := hgo
        · rw [htype] at hup
          cases hup
        · rw [htype] at hresp
          obtain hresp | hresp := hresp <;> cases hresp
      · exact hbody (Or.inr (Or.inr ⟨hlt, hgrant⟩))
    · rw [if_neg hpre]
      refine Secures.bind (P := fun r' => ∃ lead, r' = r.becomeFollower m.term lead) ?_ ?_
      · refine Avoids.bindEq (asserted_msgTypeToString _) fun _ _ => ?_
        exact Secures.ite (fun _ => Secures.pure ⟨_, rfl⟩) fun _ => Secures.pure ⟨_, rfl⟩
      · rintro r' ⟨lead, rfl⟩
        exact hhigher hlt lead
  · refine Secures.ite (fun _ => ?_) fun hge => hbody (Or.inr (Or.inl (by omega)))
    have hleads : Ensures (r.stepLowerTerm m) (LeaderCourse (.step m) r r) := leads_stepLowerTerm m
    refine Secures.bind ((asserted_stepLowerTerm r m).secures hleads) fun r' hr' => Secures.pure ?_
    exact Or.inr (Or.inl ⟨hr'.state, hr'.term⟩)

/-- `tick`. -/
theorem secures_tick : Secures (· = Fatal.ownProgressMissing) r.tick r.Fit := by
  by_cases hl : r.state = .leader
  · refine Avoids.secures ?_ ((leads_tick hl).mono fun r' hr' => ?_)
    · have hstep : ∀ {r₁ : Raft} {m : Message}, (m.type = .msgCheckQuorum ∨ m.type = .msgBeat) →
          m.term = 0 → Asserted (r₁.step m) := by
        intro r₁ m htype hterm hfail
        refine (secures_step (Or.inr ?_)).avoids _ hfail rfl
        rintro (⟨-, ⟨hup, -⟩ | ⟨hresp, -⟩⟩ | ⟨-, hup, -⟩)
        · rw [hup] at htype
          obtain h | h := htype <;> cases h
        · rcases htype with h | h <;> rw [h] at hresp <;> obtain h | h := hresp <;> cases h
        · rw [hup] at htype
          obtain h | h := htype <;> cases h
      rw [tick_leader hl]
      unfold tickHeartbeat tickQuorum tickCheckQuorum
      simp [hstep]
    · obtain hleads | ⟨_, _, rfl⟩ := hr'
      · exact Or.inr (Or.inl ⟨hleads.state, hleads.term⟩)
      · exact Or.inl rfl
  · rw [tick_election hl]
    unfold tickElection
    refine Secures.ite (fun hdue => ?_) fun _ => Secures.pure (.refl _)
    have hprom : ({ r with electionElapsed := 0 } : Raft).promotable = true := hdue.1
    exact Secures.bind (secures_step (Or.inl hprom)) fun q hq => Secures.pure hq

end Raft

/-! ## Runs -/

namespace HostEvent

/-- A node that is not a voter is asked to campaign, or told of the grants that complete a quorum. -/
def CampaignsUnfit (h : Host) : HostEvent → Prop
  | .step m => h.node.raft.promotable = false ∧ m.isLocalMsg = false ∧
      (h.node.raft.getProgress m.fromId).isSome = true ∧ h.node.raft.Proceeds m
  | .call m => h.node.raft.promotable = false ∧ h.node.raft.Proceeds m
  | _ => False

instance (h : Host) (e : HostEvent) : Decidable (e.CampaignsUnfit h) :=
  match e with
  | .step m => inferInstanceAs (Decidable (_ ∧ _ ∧ _ ∧ h.node.raft.Proceeds m))
  | .call m => inferInstanceAs (Decidable (_ ∧ h.node.raft.Proceeds m))
  | .tick | .applyConfChange _ | .ready | .persist | .advance | .createSnapshot _ _ _ | .compact _ =>
    .isFalse id

end HostEvent

namespace Host

/-- Where the step takes the node into the role of a pre-candidate, a candidate, or the leader, or in such a
role into another term, the node is a voter. -/
def OnlyVotersCampaign (t : Turn Host HostEvent) : Prop :=
  t.after.node.raft.state ≠ .follower →
    ¬(t.after.node.raft.state = t.before.node.raft.state ∧
      t.after.node.raft.term = t.before.node.raft.term) →
    t.after.node.raft.id ∈ t.after.node.raft.prs

instance (t : Turn Host HostEvent) : Decidable (OnlyVotersCampaign t) :=
  inferInstanceAs (Decidable (_ → ¬_ → _))

variable {h h' : Host} {e : HostEvent}

/-- An event does not make a node campaign that is no voter, and does not fail on the assertion of
`become_leader`, unless it makes such a node campaign, or finds it at the end of a campaign. -/
theorem secures_handle (hfit : ¬e.CampaignsUnfit h) :
    Secures (· = Fatal.ownProgressMissing) (h.handle e) fun h' => h.node.raft.Fit h'.node.raft := by
  have hstep : ∀ {m : Message}, (h.node.raft.promotable = false → ¬h.node.raft.Proceeds m) →
      Secures (· = Fatal.ownProgressMissing) (h.node.stepRaft m) fun p =>
        h.node.raft.Fit p.2.raft := fun {m} hm => by
    refine Secures.bind (Raft.secures_step ?_) fun q hq => Secures.pure hq
    cases hprom : h.node.raft.promotable with
    | true => exact Or.inl rfl
    | false => exact Or.inr (hm hprom)
  have hown : e.cause = none → Asserted (h.handle e) →
      Secures (· = Fatal.ownProgressMissing) (h.handle e) fun h' => h.node.raft.Fit h'.node.raft :=
    fun hc ha => ha.secures fun h' hh => by
      obtain ⟨l, msgs, readStates, size, heq, -⟩ := (handled hh).frame hc
      rw [heq]
      exact Or.inr (Or.inl ⟨rfl, rfl⟩)
  cases e with
  | step m =>
    unfold handle
    refine Secures.bind (P := fun p => h.node.raft.Fit p.2.raft) ?_ fun p hp => Secures.pure hp
    unfold RawNode.step
    refine Secures.ite (fun _ => Secures.ok (.refl _)) fun hlocal => ?_
    refine Secures.ite (fun hknown => hstep fun hprom hgo => ?_) fun _ => Secures.ok (.refl _)
    have hlocal : m.isLocalMsg = false := Bool.eq_false_iff.mpr hlocal
    obtain hsome | hresponse := hknown
    · exact hfit ⟨hprom, hlocal, hsome, hgo⟩
    · -- Only local messages and answers make a node proceed.
      have hup : m.type ≠ .msgHup := fun htype => by simp [Message.isLocalMsg, htype] at hlocal
      obtain ⟨-, ⟨htype, -⟩ | ⟨htype, -⟩⟩ | ⟨-, htype, -⟩ := hgo
      · exact hup htype
      · exact hresponse (by obtain h | h := htype <;> simp [Message.isResponseMsg, h])
      · exact hup htype
  | call m =>
    unfold handle
    refine Secures.bind (P := fun p => h.node.raft.Fit p.2.raft) ?_ fun p hp => Secures.pure hp
    exact hstep fun hprom hgo => hfit ⟨hprom, hgo⟩
  | tick =>
    unfold handle RawNode.tick
    refine Secures.bind (P := fun n => h.node.raft.Fit n.raft) ?_ fun n hn => Secures.pure hn
    exact Secures.bind Raft.secures_tick fun r hr => Secures.pure hr
  | applyConfChange cc =>
    unfold handle
    refine Secures.bind ((RawNode.asserted_applyConfChange _ _).secures
      (h.node.leads_applyConfChange (s := h.node.raft) cc)) fun p hp => Secures.pure ?_
    obtain ⟨⟨r₁, ⟨⟨prs, lprs, b, rfl⟩, -⟩, hleads⟩, -⟩ := hp
    exact Or.inr (Or.inl ⟨hleads.state, hleads.term⟩)
  | ready =>
    refine hown rfl ?_
    unfold handle
    cases h.ready <;> simp
  | persist =>
    refine hown rfl ?_
    unfold handle Ready.persist
    cases h.ready <;> simp
  | advance =>
    refine hown rfl ?_
    unfold handle
    cases h.ready <;> simp
  | createSnapshot index cs data =>
    refine hown rfl ?_
    unfold handle
    simp
  | compact index =>
    refine hown rfl ?_
    unfold handle
    simp

end Host

/-- Only voters campaign: in a run in which no node that is not a voter is asked to campaign or told of the
grants that complete a quorum, a node enters the roles of a pre-candidate, a candidate, and a leader only as
a voter. And neither a step of the run nor a further one fails on the assertion of `become_leader`. -/
theorem only_voters_campaign {h₀ h : Host} {ts : List (Turn Host HostEvent)} (hrun : Host.Run h₀ ts h)
    (hfit : ∀ t ∈ ts, ¬t.event.CampaignsUnfit t.before) :
    (∀ t ∈ ts, Host.OnlyVotersCampaign t) ∧
      ∀ e : HostEvent, ¬e.CampaignsUnfit h → Asserted (h.handle e) := by
  constructor
  · intro t ht hstate hentered
    have hsecures := Host.secures_handle (hfit t ht)
    obtain hfollow | hsame | hprom := hsecures.ensures _ (hrun.step_mem ht)
    · exact absurd hfollow hstate
    · exact absurd hsame hentered
    · exact AList.lookup_isSome.mp hprom
  · intro e he hfail
    exact (Host.secures_handle he).avoids _ hfail rfl

/-- One of three voters starts a poll, wins it, and is elected. -/
def pollsAndWins : List (Turn Host HostEvent) × Host :=
  Trace.run Host.handle (Host.started { voterConfig with preVote := true })
    [.call { type := .msgHup },
      .step { type := .msgPreVoteResp, fromId := 2, toId := 1, term := 1 },
      .step { type := .msgVoteResp, fromId := 2, toId := 1, term := 1 }]

/-- It is a voter all along. -/
theorem only_voters_campaign_pollsAndWins : pollsAndWins.1.length = 3 ∧
    pollsAndWins.2.node.raft.state = .leader ∧ ∀ t ∈ pollsAndWins.1, Host.OnlyVotersCampaign t :=
  ⟨by decide +kernel, by decide +kernel,
    (only_voters_campaign (Trace.of_run _ _ _) (by decide +kernel)).1⟩

/-- A learner is asked to campaign. -/
def learnerCampaigns : List (Turn Host HostEvent) × Host :=
  Trace.run Host.handle (Host.started { voterConfig with id := 3, peers := [1, 2], learners := [3] })
    [.call { type := .msgHup }]

/-- One of three voters gets the committed entry that removes it, and is told to take over. Its application
applies the entry before the answers to the campaign arrive. -/
def removedCandidate : List (Turn Host HostEvent) × Host :=
  Trace.run Host.handle (Host.started voterConfig)
    [.step { type := .msgApp, fromId := 2, toId := 1, term := 1, commit := 1, entries :=
        [{ type := .entryConfChange, term := 1, index := 1 }] },
      .step { type := .msgTimeoutNow, fromId := 2, toId := 1, term := 1 }, .ready, .persist,
      .applyConfChange { confChangeType := confChangeRemoveNode, nodeId := 1 }, .advance]

/-- The vote that completes the quorum. -/
def decisiveVote : HostEvent := .step { type := .msgVoteResp, fromId := 2, toId := 1, term := 2 }

/-- A node can campaign that is not a voter, and the assertion of `become_leader` can fail. -/
theorem unfit_campaigns :
    (¬ ∀ (c : Config) (h₀ h : Host) (ts : List (Turn Host HostEvent)), Host.boot c = .ok h₀ →
      Host.Run h₀ ts h → ∀ t ∈ ts, Host.OnlyVotersCampaign t) ∧
    ¬ ∀ (c : Config) (h₀ h : Host) (ts : List (Turn Host HostEvent)) (e : HostEvent),
      Host.boot c = .ok h₀ → Host.Run h₀ ts h → Asserted (h.handle e) := by
  constructor
  · intro hall
    have honly := hall _ _ learnerCampaigns.2 learnerCampaigns.1
      (Host.boot_started (by decide +kernel)) (Trace.of_run _ _ _)
    exact absurd honly (by decide +kernel)
  · intro hall
    have hasserted := hall voterConfig _ removedCandidate.2 removedCandidate.1 decisiveVote
      (Host.boot_started (by decide +kernel)) (Trace.of_run _ _ _)
    exact absurd hasserted (by decide +kernel)

end RaftCpp
