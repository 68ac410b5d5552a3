import RaftCpp.Raft.Bounds
import RaftCpp.Raft.Roster

/-!
# Transfers of the lead

A leader that is asked to hand the lead to a voter remembers the voter, and takes no proposals until the
transfer is over. A timeout, the end of the leadership, another request, and the removal of the voter end it,
unless the voter that is removed is the last member of all.
-/

namespace RaftCpp

open Outcome

/-- What is to be known of the transfer that is under way. -/
structure TransferRecord where
  /-- The length of the log when it began. -/
  lastIndex : ℕ := 0
  /-- Whether the voter has been removed since as the last member of all. -/
  lost : Bool := false

namespace Raft

variable {r r' : Raft} {m : Message}

/-- What a step does to a transfer of the lead. -/
inductive Transfers (r : Raft) : Raft → Prop
  /-- Nothing, as it does nothing to what the transfer is about. -/
  | kept {r' : Raft} (hstanding : r'.standing = r.standing) : r.Transfers r'
  /-- No transfer is under way after the step. -/
  | idle {r' : Raft} (hidle : r'.leadTransferee = 0) : r.Transfers r'
  /-- A voter is to take over from the leader. -/
  | begun {r' : Raft} {voter : ℕ} {p : Progress} (hl : r.state = .leader) (hself : voter ≠ r.id)
      (hget : r.getProgress voter = some p) (hvoter : p.isLearner = false)
      (hstanding : r'.standing = { r.standing with leadTransferee := voter }) : r.Transfers r'

/-- The request of a transfer. -/
theorem transfers_startTransfer {p : Progress} (hl : r.state = .leader) (hidle : r.leadTransferee = 0)
    (hget : r.getProgress m.fromId = some p) (hvoter : p.isLearner = false) :
    Ensures (r.startTransfer m.fromId p) r.Transfers := by
  unfold startTransfer
  refine Ensures.ite (fun _ => Ensures.ok (.idle hidle)) fun hself => ?_
  have hbegun : ∀ r' : Raft, r'.standing =
      ({ r with electionElapsed := 0, leadTransferee := m.fromId } : Raft).standing → r.Transfers r' :=
    fun r' h => .begun hl hself hget hvoter h
  refine Ensures.ite (fun _ => ?_) fun _ => (keepsStanding_sendAppend _ _).mono hbegun
  exact (keepsStanding_send _ _).mono hbegun

/-- `step_leader` on such a request. -/
theorem transfers_stepLeaderTransfer {p : Progress} (hl : r.state = .leader)
    (hget : r.getProgress m.fromId = some p) : Ensures (r.stepLeaderTransfer m p) r.Transfers := by
  unfold stepLeaderTransfer
  refine Ensures.ite (fun _ => Ensures.ok (.kept rfl)) fun hlearner => ?_
  have hvoter : p.isLearner = false := Bool.not_eq_true _ ▸ hlearner
  refine Ensures.ite (fun _ => ?_) fun hidle => transfers_startTransfer hl (not_not.mp hidle) hget hvoter
  refine Ensures.ite (fun _ => Ensures.ok (.kept rfl)) fun _ => ?_
  -- The transfer that was under way is given up first.
  refine (transfers_startTransfer (r := r.abortLeaderTransfer) hl rfl hget hvoter).mono fun r' hr' => ?_
  cases hr' with
  | kept hstanding => exact .idle (congrArg Standing.leadTransferee hstanding)
  | idle hidle => exact .idle hidle
  | begun hl hself hget hvoter hstanding => exact .begun hl hself hget hvoter hstanding

/-- `step_leader` on a proposal: there is no transfer when entries are appended. -/
theorem transfers_stepLeaderProp (r : Raft) (m : Message) :
    Ensures (r.stepLeaderProp m) fun q => r.Transfers q.2 := by
  unfold stepLeaderProp
  refine Ensures.ite (fun _ => Ensures.error) fun _ => ?_
  refine Ensures.ite (fun _ => Ensures.pure (.kept rfl)) fun _ => ?_
  refine Ensures.ite (fun _ => Ensures.pure (.kept rfl)) fun hidle => ?_
  refine Ensures.bind (aside_appendEntry _ _) fun q hq => ?_
  have hover : q.2.leadTransferee = 0 := hq.idle (not_not.mp hidle)
  refine Ensures.ite (fun _ => Ensures.pure (.idle hover)) fun _ => ?_
  refine Ensures.bind (keepsStanding_bcastAppend _) fun r' hr' => Ensures.pure (.idle ?_)
  exact (congrArg Standing.leadTransferee hr').trans hover

/-- `step_leader`. -/
theorem transfers_stepLeader (hl : r.state = .leader) (m : Message) :
    Ensures (r.stepLeader m) fun q => r.Transfers q.2 := by
  by_cases hprop : m.type = .msgProp
  · unfold stepLeader
    simp only [hprop]
    exact r.transfers_stepLeaderProp m
  by_cases hcheck : m.type = .msgCheckQuorum
  · unfold stepLeader
    simp only [hcheck]
    refine Ensures.pure ?_
    dsimp only
    split_ifs
    · exact .kept rfl
    · exact .idle rfl
  by_cases htransfer : m.type = .msgTransferLeader
  · unfold stepLeader stepLeaderPeer
    simp only [htransfer]
    refine Ensures.bind (P := r.Transfers) ?_ fun r' hr' => Ensures.pure hr'
    cases hget : r.getProgress m.fromId with
    | none => exact Ensures.ok (.kept rfl)
    | some p => exact transfers_stepLeaderTransfer hl hget
  · exact (keepsStanding_stepLeader hprop htransfer hcheck).mono fun q hq => .kept hq

/-- `step` past the check of the term. -/
theorem transfers_stepBody (hlead : r.leadTransferee ≠ 0 → r.state = .leader) (m : Message) :
    Ensures (r.stepBody m) fun q => r.Transfers q.2 := by
  by_cases hl : r.state = .leader
  · have hvote : Ensures (do
        let r' ← r.stepVote m
        return (Status.ok, r')) fun q => r.Transfers q.2 :=
      Ensures.bind (r.keepsStanding_stepVote m) fun r' hr' => Ensures.pure (.kept hr')
    unfold stepBody
    split
    · -- A leader does not campaign.
      unfold stepHup
      rw [if_pos hl]
      exact Ensures.pure (.kept rfl)
    · exact hvote
    · exact hvote
    · unfold stepRole
      rw [hl]
      exact transfers_stepLeader hl m
  · have hidle : r.leadTransferee = 0 := by
      by_contra hne
      exact hl (hlead hne)
    exact (takes_stepBody hl m).mono fun q hq => .idle (hq.idle hidle)

/-- `step`. -/
theorem transfers_step (hlead : r.leadTransferee ≠ 0 → r.state = .leader) (m : Message) :
    Ensures (r.step m) fun q => r.Transfers q.2 := by
  apply step_ensures
  · exact transfers_stepBody hlead m
  · intro lead _ _
    have hstate : (r.becomeFollower m.term lead).state ≠ .leader := nofun
    exact (takes_stepBody hstate m).mono fun q hq => .idle (hq.idle rfl)
  · exact .kept rfl
  · exact (r.keepsStanding_stepLowerTerm m).mono fun r' hr' => .kept hr'

/-- `tick`. -/
theorem transfers_tick (hlead : r.leadTransferee ≠ 0 → r.state = .leader) :
    Ensures r.tick r.Transfers := by
  by_cases hl : r.state = .leader
  · -- The check of the quorum may end the leadership, and the timeout the transfer.
    have hticked : ∀ {r' : Raft} (heartbeat election transferee : ℕ),
        transferee = r.leadTransferee ∨ transferee = 0 → r'.standing = ({ r with
          heartbeatElapsed := heartbeat
          electionElapsed := election
          leadTransferee := transferee } : Raft).standing → r.Transfers r' := by
      rintro r' heartbeat election transferee (rfl | rfl) h
      · exact .kept h
      · exact .idle (congrArg Standing.leadTransferee h)
    refine tick_leader_ensures hl (fun _ _ _ h => hticked _ _ _ h rfl) (fun _ _ _ h => ?_) fun _ _ => .idle rfl
    exact (keepsStanding_bcastHeartbeatWithCtx _ _).mono fun r' hr' => hticked _ _ _ h hr'
  · have hidle : r.leadTransferee = 0 := by
      by_contra hne
      exact hl (hlead hne)
    rw [tick_election hl]
    exact r.aside_tickElection.mono fun r' hr' => .idle (hr'.idle hidle)

/-- A transfer that is under way goes from a leader to another node, which is a voter unless it was lost, and
the log is as long as it was when the transfer began. -/
def Transferring (r : Raft) (g : TransferRecord) : Prop :=
  r.leadTransferee ≠ 0 → r.state = .leader ∧ r.leadTransferee ≠ r.id ∧
    (g.lost = false → r.leadTransferee ∈ r.prs) ∧ r.raftLog.lastIndex = g.lastIndex

/-- Who is a voter. -/
theorem mem_prs_iff {y : ℕ} : y ∈ r.prs ↔ r.roster.voters y ≠ none := by
  rw [← AList.lookup_isSome, Option.isSome_iff_ne_none]
  exact (not_congr Option.map_eq_none_iff).symm

/-- Such a step keeps a transfer as it should be. -/
theorem Transfers.transferring {g : TransferRecord} (h : r.Transfers r') (hflag : r.roster.Flagged)
    (hr : r.Transferring g) :
    r'.Transferring (if r'.leadTransferee = r.leadTransferee then g
      else { lastIndex := r.raftLog.lastIndex }) := by
  have hlast : r'.standing.log = r.standing.log → r'.raftLog.lastIndex = r.raftLog.lastIndex :=
    fun hlog => (congrArg RaftLog.lastIndex hlog : r'.standing.log.lastIndex = r.standing.log.lastIndex)
  intro hne
  cases h with
  | kept hstanding =>
    have hsame : r'.leadTransferee = r.leadTransferee := congrArg Standing.leadTransferee hstanding
    have hroster : r'.roster = r.roster := congrArg Standing.roster hstanding
    obtain ⟨hstate, hself, hvoter, hk⟩ := hr (hsame ▸ hne)
    rw [if_pos hsame]
    refine ⟨(congrArg Standing.state hstanding).trans hstate, ?_, fun hlost => ?_, ?_⟩
    · rw [hsame]
      exact fun heq => hself (heq.trans (congrArg Roster.id hroster))
    · rw [mem_prs_iff, hroster, hsame]
      exact mem_prs_iff.mp (hvoter hlost)
    · exact (hlast (congrArg Standing.log hstanding)).trans hk
  | idle hidle => exact absurd hidle hne
  | @begun voter p hl hself hget hvoter hstanding =>
    have hbegun : r'.leadTransferee = voter := congrArg Standing.leadTransferee hstanding
    have hroster : r'.roster = r.roster := congrArg Standing.roster hstanding
    have hmem : voter ∈ r.prs := by
      by_contra hno
      unfold getProgress at hget
      rw [AList.lookup_eq_none.mpr hno, Option.none_or] at hget
      have hlearner := hflag.learners voter p.isLearner (Option.map_eq_some_iff.mpr ⟨p, hget, rfl⟩)
      rw [hvoter] at hlearner
      cases hlearner
    refine ⟨(congrArg Standing.state hstanding).trans hl, ?_, fun _ => ?_, ?_⟩
    · rw [hbegun]
      exact fun heq => hself (heq.trans (congrArg Roster.id hroster))
    · rw [mem_prs_iff, hroster, hbegun]
      exact mem_prs_iff.mp hmem
    · have hlog : r'.standing.log = r.standing.log := by rw [hstanding]
      split_ifs with hsame
      · exact (hlast hlog).trans (hr (hsame ▸ hne)).2.2.2
      · exact hlast hlog

end Raft

/-! ## Runs -/

/-- The application removes the voter that is to take over, as the last member of all. -/
def HostEvent.Strands (r : Raft) : HostEvent → Prop
  | .applyConfChange cc =>
    r.leadTransferee ≠ 0 ∧ cc.confChangeType = confChangeRemoveNode ∧ cc.nodeId = r.leadTransferee ∧
      ∀ y ∈ r.prs.keys ++ r.learnerPrs.keys, y = cc.nodeId
  | _ => False

instance (r : Raft) (e : HostEvent) : Decidable (e.Strands r) :=
  match e with
  | .applyConfChange _ => inferInstanceAs (Decidable (_ ∧ _ ∧ _ ∧ _))
  | .step _ | .call _ | .tick | .ready | .persist | .advance | .createSnapshot _ _ _ | .compact _ =>
    .isFalse id

/-- A change of the configuration ends a transfer or keeps it as it should be. -/
theorem RawNode.transferring_applyConfChange {n : RawNode} {cc : ConfChange} {g k : TransferRecord}
    (hr : n.raft.Transferring g) (hlast : k.lastIndex = g.lastIndex)
    (hlost : k.lost = false → g.lost = false ∧ ¬HostEvent.Strands n.raft (.applyConfChange cc)) :
    Ensures (n.applyConfChange cc) fun p =>
      (p.2.raft.leadTransferee = n.raft.leadTransferee ∨ p.2.raft.leadTransferee = 0) ∧
        p.2.raft.Transferring k := by
  have hadd : ∀ b, Ensures (n.raft.addNodeOrLearner cc.nodeId b) fun r' =>
      (r'.leadTransferee = n.raft.leadTransferee ∨ r'.leadTransferee = 0) ∧ r'.Transferring k := by
    intro b
    refine ((n.raft.roster_addNodeOrLearner cc.nodeId b).and
      (Raft.reshapes_addNodeOrLearner cc.nodeId b)).mono fun r' hr' => ?_
    obtain ⟨hroster, ⟨prs, learnerPrs, isLearner, heq⟩, -⟩ := hr'
    have hvoters : ∀ y, y ∈ n.raft.prs → y ∈ r'.prs := by
      intro y hy
      rw [Raft.mem_prs_iff] at hy ⊢
      obtain heq | heq | ⟨-, heq⟩ := hroster
      · rwa [heq]
      · rw [heq]
        unfold Roster.withVoter
        dsimp only
        split_ifs
        · exact nofun
        · exact hy
      · rw [heq]
        exact hy
    refine ⟨Or.inl (by rw [heq]), fun hne => ?_⟩
    have hsame : r'.leadTransferee = n.raft.leadTransferee := by rw [heq]
    obtain ⟨hstate, hself, hvoter, hk⟩ := hr (hsame ▸ hne)
    have hmem : k.lost = false → n.raft.leadTransferee ∈ r'.prs := fun hno =>
      hvoters _ (hvoter (hlost hno).1)
    rw [heq] at hmem ⊢
    exact ⟨hstate, hself, hmem, hk.trans hlast.symm⟩
  have hremove : cc.confChangeType = confChangeRemoveNode → Ensures (n.raft.removeNode cc.nodeId) fun r' =>
      (r'.leadTransferee = n.raft.leadTransferee ∨ r'.leadTransferee = 0) ∧ r'.Transferring k := by
    intro htype
    have hdel : (n.raft.delProgress cc.nodeId).roster = n.raft.roster.without cc.nodeId :=
      n.raft.roster_delProgress cc.nodeId
    have hend : ∀ r₁ : Raft, r₁.standing = (n.raft.delProgress cc.nodeId).standing →
        Ensures (if r₁.state = .leader ∧ r₁.leadTransferee = cc.nodeId then
          (Pure.pure r₁.abortLeaderTransfer : Result Raft) else Pure.pure r₁) fun r' =>
            (r'.leadTransferee = n.raft.leadTransferee ∨ r'.leadTransferee = 0) ∧ r'.Transferring k := by
      intro r₁ h₁
      refine Ensures.ite (fun _ => Ensures.pure ⟨Or.inr rfl, fun hne => absurd rfl hne⟩) fun hnot => ?_
      have hsame : r₁.leadTransferee = n.raft.leadTransferee := congrArg Standing.leadTransferee h₁
      have hroster : r₁.roster = n.raft.roster.without cc.nodeId := (congrArg Standing.roster h₁).trans hdel
      refine Ensures.pure ⟨Or.inl hsame, fun hne => ?_⟩
      obtain ⟨hstate, hself, hvoter, hk⟩ := hr (hsame ▸ hne)
      have hstate₁ : r₁.state = .leader := (congrArg Standing.state h₁).trans hstate
      have hother : r₁.leadTransferee ≠ cc.nodeId := fun heq => hnot ⟨hstate₁, heq⟩
      refine ⟨hstate₁, ?_, fun hno => ?_, ?_⟩
      · rw [hsame]
        exact fun heq => hself (heq.trans (congrArg Roster.id hroster))
      · rw [Raft.mem_prs_iff, hroster]
        unfold Roster.without
        dsimp only
        rw [if_neg hother, hsame]
        exact Raft.mem_prs_iff.mp (hvoter (hlost hno).1)
      · have hlog : r₁.standing.log.lastIndex = (n.raft.delProgress cc.nodeId).standing.log.lastIndex :=
          congrArg (fun st : Standing => st.log.lastIndex) h₁
        exact hlog.trans (hk.trans hlast.symm)
    unfold Raft.removeNode
    refine Ensures.ite (fun hempty => Ensures.pure ⟨Or.inl rfl, fun hne => ?_⟩) fun _ => ?_
    · -- Nobody is left, so that the voter was the last member.
      obtain ⟨hstate, hself, hvoter, hk⟩ := hr hne
      refine ⟨hstate, hself, fun hno => ?_, hk.trans hlast.symm⟩
      obtain ⟨hlost, hkeep⟩ := hlost hno
      have honly : ∀ y ∈ n.raft.prs.keys ++ n.raft.learnerPrs.keys, y = cc.nodeId := by
        intro y hy
        by_contra hother
        obtain hy | hy := List.mem_append.mp hy
        · have hmem : y ∈ (n.raft.delProgress cc.nodeId).prs := AList.mem_erase.mpr ⟨hother, hy⟩
          rw [AList.mem_keys, hempty.1] at hmem
          cases hmem
        · have hmem : y ∈ (n.raft.delProgress cc.nodeId).learnerPrs := AList.mem_erase.mpr ⟨hother, hy⟩
          rw [AList.mem_keys, hempty.2] at hmem
          cases hmem
      have hid : n.raft.leadTransferee = cc.nodeId :=
        honly _ (List.mem_append_left _ (hvoter hlost))
      exact absurd ⟨hne, htype, hid.symm, honly⟩ hkeep
    · refine Ensures.bind (Raft.keepsStanding_maybeCommit _) fun ⟨committed, r₁⟩ h₁ => ?_
      refine Ensures.ite (fun _ => ?_) fun _ => hend r₁ h₁
      exact Ensures.bind (Raft.keepsStanding_bcastAppend _) fun r₂ h₂ => hend r₂ (h₂.trans h₁)
  have hsame : (n.raft.leadTransferee = n.raft.leadTransferee ∨ n.raft.leadTransferee = 0) ∧
      n.raft.Transferring k := by
    refine ⟨Or.inl rfl, fun hne => ?_⟩
    obtain ⟨hstate, hself, hvoter, hk⟩ := hr hne
    exact ⟨hstate, hself, fun hno => hvoter (hlost hno).1, hk.trans hlast.symm⟩
  unfold applyConfChange
  refine Ensures.ite (fun _ => Ensures.pure hsame) fun _ => ?_
  refine Ensures.ite (fun _ => Ensures.bind (hadd false) fun r' hr' => Ensures.pure hr') fun _ => ?_
  refine Ensures.ite (fun _ => Ensures.bind (hadd true) fun r' hr' => Ensures.pure hr') fun _ => ?_
  refine Ensures.ite (fun htype => Ensures.bind (hremove htype) fun r' hr' => Ensures.pure hr') fun _ => ?_
  exact Ensures.ite (fun _ => Ensures.pure hsame) fun _ => Ensures.bind Ensures.throw fun _ hr' => hr'

namespace Host

variable {h h' : Host} {e : HostEvent}

/-- What is to be known of the transfer that is under way after the step. -/
def recordTransfer (g : TransferRecord) (t : Turn Host HostEvent) : TransferRecord :=
  if t.after.node.raft.leadTransferee = t.before.node.raft.leadTransferee then
    { g with lost := g.lost || decide (t.event.Strands t.before.node.raft) }
  else { lastIndex := t.before.log.lastIndex }

/-- A step ends a transfer or keeps it as it should be. -/
theorem transferring_handle {g : TransferRecord} (hs : h.Sound) (hs' : h'.Sound) (hh : h.handle e = .ok h')
    (hflag : h.node.raft.roster.Flagged) (hr : h.node.raft.Transferring g) :
    h'.node.raft.Transferring (recordTransfer g ⟨h, e, h'⟩) := by
  have hlead : h.node.raft.leadTransferee ≠ 0 → h.node.raft.state = .leader := fun hne => (hr hne).1
  have hlost : ∀ {lost b : Bool}, (lost || b) = false → lost = false :=
    fun hno => (Bool.or_eq_false_iff.mp hno).1
  -- The voter can get lost only in a change of the configuration.
  have htransfers : h.node.raft.Transfers h'.node.raft →
      h'.node.raft.Transferring (recordTransfer g ⟨h, e, h'⟩) := by
    intro hstep hne
    obtain ⟨hstate, hself, hvoter, hk⟩ := hstep.transferring hflag hr hne
    unfold recordTransfer
    dsimp only
    split_ifs at hvoter hk ⊢
    · exact ⟨hstate, hself, fun hno => hvoter (hlost hno), hk⟩
    · exact ⟨hstate, hself, hvoter, hk⟩
  cases e with
  | step m | call m =>
    obtain heq | ⟨status, hstep⟩ := stepped rfl hh
    · exact htransfers (.kept (by rw [heq]))
    · exact htransfers (Raft.transfers_step hlead m _ hstep)
  | tick =>
    obtain ⟨n, hn, hh⟩ := bind_eq_ok.mp hh
    cases hh
    obtain ⟨r, hstep, hn⟩ := bind_eq_ok.mp hn
    cases hn
    exact htransfers (Raft.transfers_tick hlead r hstep)
  | applyConfChange cc =>
    obtain ⟨p, hp, hh⟩ := bind_eq_ok.mp hh
    cases hh
    have happly := RawNode.transferring_applyConfChange hr
      (k := { g with lost := g.lost || decide (HostEvent.Strands h.node.raft (.applyConfChange cc)) }) rfl
      (fun hno => by simpa using hno) p hp
    obtain ⟨hsame | hidle, hr'⟩ := happly
    · unfold recordTransfer
      rw [if_pos hsame]
      exact hr'
    · exact fun hne => absurd hidle hne
  | _ =>
    obtain ⟨l, msgs, readStates, size, heq, -⟩ := (handled hh).frame rfl
    have hlast := hs.log.lastIndex_congr hs'.log (unstable_end_of_cause_none hh rfl)
    unfold recordTransfer
    rw [if_pos (by rw [heq])]
    unfold log at hlast
    rw [heq] at hlast ⊢
    intro hne
    obtain ⟨hstate, hself, hvoter, hk⟩ := hr hne
    exact ⟨hstate, hself, fun hno => hvoter (hlost hno), hlast.trans hk⟩

/-- No transfer is under way in a node that was just built. -/
theorem Built.transferring {c : Config} (hb : Built c h) (g : TransferRecord) :
    h.node.raft.Transferring g := by
  have hidle : h.node.raft.leadTransferee = 0 := by
    refine hb.holds (P := fun r => r.leadTransferee = 0) (fun r t lead _ _ _ => rfl) (fun r l hr => hr)
      fun r id hr => ?_
    refine (Raft.reshapes_addNodeOrLearner id false).mono fun r' hr' => ?_
    obtain ⟨⟨prs, learnerPrs, isLearner, rfl⟩, -⟩ := hr'
    exact hr
  exact fun hne => absurd hidle hne

end Host

/-- Transfers of the lead: in every run of a node from its start, with an orderly application, a transfer that
is under way goes from a leader to another node, and the log has not grown since it began. The other node is a
voter, unless it has been removed since as the last member of all: then the transfer is not given up. -/
theorem transfer_to_voter {c : Config} {h₀ h : Host} {turns : List (Turn Host HostEvent)}
    (hb : Host.Built c h₀) (hs : c.storage.Consistent) (happ : c.AppliedFits) (hrun : Host.Run h₀ turns h)
    (horder : ∀ t ∈ turns, t.event.Orderly t.before ∧ ¬t.event.DropsAbove t.before) :
    h.node.raft.leadTransferee ≠ 0 → h.node.raft.state = .leader ∧
      h.node.raft.leadTransferee ≠ h.node.raft.id ∧
        ((turns.foldl Host.recordTransfer {}).lost = false →
          h.node.raft.leadTransferee ∈ h.node.raft.prs) ∧
            h.log.lastIndex = (turns.foldl Host.recordTransfer {}).lastIndex := by
  -- The invariant goes along with what is to be known of the transfer.
  have hall : ∀ g, h₀.Sound → h₀.node.raft.roster.Flagged → h₀.node.raft.Transferring g →
      h.node.raft.Transferring (turns.foldl Host.recordTransfer g) := by
    clear hb
    induction hrun with
    | nil _ => exact fun g _ _ hg => hg
    | cons hstep _ ih =>
      intro g hsound hflag hg
      obtain ⟨horder₁, hdrop₁⟩ := horder _ List.mem_cons_self
      have hsound' := hsound.handle hstep horder₁ hdrop₁
      exact ih (fun t ht => horder t (List.mem_cons_of_mem _ ht)) _ hsound'
        ((Host.enrolment_handle hstep).flagged hflag) (Host.transferring_handle hsound hsound' hstep hflag hg)
  exact hall {} (hb.sound hs happ) hb.consistent.toFlagged (hb.transferring {})

/-- A leader of three is asked to hand the lead to a voter that has not got its log yet, drops a proposal, and
hears from the other voter. A learner is added, and a round is made. -/
def leadOffered : List (Turn Host HostEvent) × Host :=
  Trace.run Host.handle (Host.started voterConfig)
    [.call { type := .msgHup }, .step { type := .msgVoteResp, fromId := 3, toId := 1, term := 1 },
      .step { type := .msgTransferLeader, fromId := 2, toId := 1 },
      .call { type := .msgProp, fromId := 1, entries := [{}] },
      .step { type := .msgAppResp, fromId := 3, toId := 1, term := 1, index := 1 },
      .applyConfChange { confChangeType := confChangeAddLearnerNode, nodeId := 4 }, .ready, .persist, .advance]

/-- The transfer is under way, to a voter, and the log has not grown. -/
theorem transfer_to_voter_offered :
    (leadOffered.1.length = 9 ∧ leadOffered.2.node.raft.leadTransferee = 2 ∧
      (leadOffered.1.foldl Host.recordTransfer {}).lost = false) ∧
      leadOffered.2.node.raft.state = .leader ∧
        leadOffered.2.node.raft.leadTransferee ≠ leadOffered.2.node.raft.id ∧
          ((leadOffered.1.foldl Host.recordTransfer {}).lost = false →
            leadOffered.2.node.raft.leadTransferee ∈ leadOffered.2.node.raft.prs) ∧
              leadOffered.2.log.lastIndex = (leadOffered.1.foldl Host.recordTransfer {}).lastIndex :=
  ⟨by decide +kernel, transfer_to_voter (Host.boot_built (Host.boot_started (by decide +kernel)))
    MemoryStorage.empty_consistent (Or.inl rfl) (Trace.of_run _ _ _) (by decide +kernel) (by decide +kernel)⟩

/-- A leader of two is asked to hand the lead to the other voter. Then it removes itself, and the other one. -/
def lastRemoved : List (Turn Host HostEvent) × Host :=
  Trace.run Host.handle (Host.started { soloConfig with peers := [1, 2] })
    [.call { type := .msgHup }, .step { type := .msgVoteResp, fromId := 2, toId := 1, term := 1 },
      .step { type := .msgTransferLeader, fromId := 2, toId := 1 },
      .applyConfChange { confChangeType := confChangeRemoveNode, nodeId := 1 },
      .applyConfChange { confChangeType := confChangeRemoveNode, nodeId := 2 }]

/-- `remove_node` returns before it gives the transfer up: the node that is to take over is no member. -/
theorem transfer_outlives_voter : ¬∀ (c : Config) (h₀ h : Host) (turns : List (Turn Host HostEvent)),
    Host.Built c h₀ → c.storage.Consistent → c.AppliedFits → Host.Run h₀ turns h →
      (∀ t ∈ turns, t.event.Orderly t.before ∧ ¬t.event.DropsAbove t.before) →
        h.node.raft.leadTransferee ≠ 0 → h.node.raft.state = .leader ∧
          h.node.raft.leadTransferee ≠ h.node.raft.id ∧ h.node.raft.leadTransferee ∈ h.node.raft.prs ∧
            h.log.lastIndex = (turns.foldl Host.recordTransfer {}).lastIndex := by
  intro hall
  obtain ⟨-, -, hvoter, -⟩ := hall _ _ lastRemoved.2 lastRemoved.1
    (Host.boot_built (Host.boot_started (by decide +kernel))) MemoryStorage.empty_consistent (Or.inl rfl)
    (Trace.of_run _ _ _) (by decide +kernel) (by decide +kernel)
  have hgone : lastRemoved.2.node.raft.leadTransferee ∉ lastRemoved.2.node.raft.prs := by decide +kernel
  exact hgone hvoter

end RaftCpp
