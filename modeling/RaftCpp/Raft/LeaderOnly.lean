import RaftCpp.Raft.Booting
import RaftCpp.Raft.Handout
import RaftCpp.Raft.Subordinate

/-!
# What only a leader does

Only a leader sends appends, snapshots, heartbeats, and requests to take over, and only a leader commits
what it finds to match on a quorum. The removal of a node is an exception, since it looks for more to
commit whatever the role of the node is. A node that does not lead knows of no matches but its own, so that
it finds something exactly if the removal leaves it as the only voter, with entries of its term at the end
of what matches.
-/

namespace RaftCpp

open Outcome

variable {r r' : Raft}

namespace Raft

/-! ## Changes of the membership -/

/-- The node is the only voter, and what matches is not committed and ends in its own term. -/
def Alone (r : Raft) : Prop :=
  ∃ p, r.prs.entries = [⟨r.id, p⟩] ∧ r.raftLog.committed < p.matched ∧
    r.raftLog.term p.matched = .ok r.term

/-- The message of a node that acts without one. It tells nothing. -/
def noMessage : Message := { type := .msgHup }

/-- Writing a progress that matches what the one before matched, or the progress of the node itself. -/
theorem Unmatched.putProgress (h : r.Unmatched) {y : ℕ} {p p' : Progress}
    (hget : r.getProgress y = some p) (hp : y ≠ r.id → p'.matched = p.matched) :
    (r.putProgress y p').Unmatched := by
  unfold getProgress at hget
  unfold Raft.putProgress
  split_ifs with hmem hlearner
  · obtain ⟨q, hq⟩ := Option.isSome_iff_exists.mp (AList.lookup_isSome.mpr hmem)
    rw [hq, Option.some_or] at hget
    cases hget
    refine ⟨fun z q hz hlook => ?_, h.learnerPrs⟩
    rw [AList.lookup_insert_eq] at hlook
    split_ifs at hlook with heq
    · cases hlook
      exact (hp (heq ▸ hz)).trans (h.prs y p (heq ▸ hz) hq)
    · exact h.prs z q hz hlook
  · rw [AList.lookup_eq_none.mpr hmem, Option.none_or] at hget
    refine ⟨h.prs, fun z q hz hlook => ?_⟩
    rw [AList.lookup_insert_eq] at hlook
    split_ifs at hlook with heq
    · cases hlook
      exact (hp (heq ▸ hz)).trans (h.learnerPrs y p (heq ▸ hz) hget)
    · exact h.learnerPrs z q hz hlook
  · exact h

end Raft

/-- Without a message of a peer, only the match of the node itself changes. -/
theorem PeerMove.matched_eq {c : Cause} {s : Raft} {y : ℕ} {p p' : Progress}
    (h : PeerMove c s r y p p') (hc : ∀ m, c ≠ .step m) (hy : y ≠ r.id) : p'.matched = p.matched := by
  cases h with
  | probe =>
    unfold Progress.becomeProbe
    split_ifs <;> rfl
  | own h => exact absurd h hy
  | acked m h => exact absurd h (hc m)
  | rejected p₀ m h => exact absurd h (hc m)
  | _ => rfl

/-- Without a message of a peer, a node learns of no matches. -/
theorem LeaderMove.unmatched {c : Cause} {s : Raft} (h : LeaderMove c s r r')
    (hc : ∀ m, c ≠ .step m) (hun : r.Unmatched) : r'.Unmatched := by
  cases h with
  | send x hx hne h =>
    obtain ⟨rfl, -⟩ := Raft.send_eq h
    exact hun.congr rfl rfl rfl
  | peer y p p' hget h =>
    refine hun.putProgress hget fun hy => ?_
    induction h with
    | refl => rfl
    | tail _ hmove ih => exact (hmove.matched_eq hc hy).trans ih
  | serve m h => exact absurd h (hc m)
  | confirm m h => exact absurd h (hc m)
  | _ => exact hun.congr rfl rfl rfl

/-- Without a message of a peer, a node learns of no matches. -/
theorem LeaderCourse.unmatched {c : Cause} {s : Raft} (h : LeaderCourse c s r r')
    (hc : ∀ m, c ≠ .step m) (hun : r.Unmatched) : r'.Unmatched := by
  induction h with
  | refl => exact hun
  | tail _ hmove ih => exact hmove.unmatched hc ih

namespace Raft

/-- The end of `add_node_or_learner`. -/
theorem obeys_markActive (hstate : r.state ≠ .leader) (id : ℕ) (isLearner : Bool) :
    Ensures (r.markActive id isLearner) (Obeys noMessage r) := by
  unfold markActive
  have hrole : Obeys noMessage r (if r.id = id then { r with isLearner := isLearner } else r) := by
    split_ifs
    · exact .of_eq hstate rfl rfl rfl fun hun => (hun hstate).congr rfl rfl rfl
    · exact .refl hstate
  refine Ensures.bind peerProgress_eq fun pr hget => Ensures.pure (hrole.trans ?_)
  generalize (if r.id = id then { r with isLearner := isLearner } else r) = r₁ at hget hrole ⊢
  have hout := r₁.putProgress_outline id { pr with recentActive := true }
  refine .of_eq ?_ (congrArg Outline.id hout) (congrArg Outline.msgs hout)
    (congrArg Outline.raftLog hout) fun hun => (hun hrole.state).putProgress hget fun _ => rfl
  exact (congrArg Outline.state hout).trans_ne hrole.state

/-- `add_node_or_learner`. -/
theorem obeys_addNodeOrLearner (hstate : r.state ≠ .leader) (id : ℕ) (isLearner : Bool) :
    Ensures (r.addNodeOrLearner id isLearner) (Obeys noMessage r) := by
  unfold addNodeOrLearner
  cases hget : r.getProgress id with
  | none =>
    refine Ensures.bind (obeys_setProgress (m := noMessage) hstate fun _ => rfl) fun r₁ h₁ => ?_
    exact (obeys_markActive h₁.state id isLearner).mono fun r' hr' => h₁.trans hr'
  | some pr =>
    refine Ensures.ite (fun _ => Ensures.pure (.refl hstate)) fun hlearner => ?_
    refine Ensures.ite (fun _ => Ensures.pure (.refl hstate)) fun hsame => ?_
    -- The learner becomes a voter, and what matches stays.
    have hmatched : r.Unmatched → id ≠ r.id → pr.matched = 0 := fun hun hid => by
      obtain hprs | ⟨-, hlprs⟩ := Option.or_eq_some_iff.mp hget
      · exact hun.prs id pr hid hprs
      · exact hun.learnerPrs id pr hid hlprs
    have h₁ : Obeys noMessage r
        { r with
          learnerPrs := r.learnerPrs.erase id
          prs := r.prs.insert id { pr with isLearner := false } } := by
      refine .of_eq hstate rfl rfl rfl fun hun => ⟨fun y q hy hlook => ?_, fun y q hy hlook => ?_⟩
      · rw [AList.lookup_insert_eq] at hlook
        split_ifs at hlook with heq
        · cases hlook
          exact hmatched (hun hstate) (heq ▸ hy)
        · exact (hun hstate).prs y q hy hlook
      · by_cases heq : y = id
        · rw [heq, AList.lookup_erase] at hlook
          cases hlook
        · rw [AList.lookup_erase_ne heq] at hlook
          exact (hun hstate).learnerPrs y q hy hlook
    exact (obeys_markActive h₁.state id isLearner).mono fun r' hr' => h₁.trans hr'

/-- Removing a node takes back no match. -/
theorem Unmatched.delProgress (h : r.Unmatched) (id : ℕ) : (r.delProgress id).Unmatched := by
  have hmem : ∀ {prs : AList fun _ : ℕ => Progress} {y : ℕ} {p : Progress},
      (prs.erase id).lookup y = some p → prs.lookup y = some p := by
    intro prs y p hlook
    by_cases heq : y = id
    · rw [heq, AList.lookup_erase] at hlook
      cases hlook
    · rwa [AList.lookup_erase_ne heq] at hlook
  exact ⟨fun y p hy hlook => h.prs y p hy (hmem hlook),
    fun y p hy hlook => h.learnerPrs y p hy (hmem hlook)⟩

/-- With a single voter, what it matches decides. -/
theorem sortedMatches_single {y : ℕ} {p : Progress} (hentries : r.prs.entries = [⟨y, p⟩]) :
    r.sortedMatches[sub64 r.sortedMatches.length r.quorum]? = some p.matched := by
  have hmatches : r.sortedMatches = [p.matched] := by simp [sortedMatches, hentries]
  have hquorum : r.quorum = 1 := by simp [quorum, AList.keys, List.keys, hentries]
  rw [hmatches, hquorum]
  rfl

/-- A node that knows of no matches but its own finds an index beyond zero only if it is the only
voter. -/
theorem Unmatched.of_match (h : r.Unmatched) {mci : ℕ}
    (hget : r.sortedMatches[sub64 r.sortedMatches.length r.quorum]? = some mci) (hpos : 0 < mci) :
    ∃ p, r.prs.entries = [⟨r.id, p⟩] ∧ p.matched = mci := by
  have hcount := quorum_le_countP hget
  -- Only the node itself matches beyond zero.
  have hself : ∀ e ∈ r.prs.entries, mci ≤ e.2.matched → e.1 = r.id := by
    intro e he hle
    by_contra hne
    have hzero := h.prs e.1 e.2 hne (AList.lookup_eq_some_iff_mem.mpr he)
    omega
  have hle : r.prs.entries.countP (fun e => decide (mci ≤ e.2.matched)) ≤ 1 := by
    rw [← r.prs.card_keysWhere fun _ p => decide (mci ≤ p.matched), Finset.card_le_one]
    intro y hy z hz
    obtain ⟨p, hp, hyle⟩ := AList.mem_keysWhere.mp hy
    obtain ⟨q, hq, hzle⟩ := AList.mem_keysWhere.mp hz
    have hyid := hself ⟨y, p⟩ (AList.lookup_eq_some_iff_mem.mp hp) (of_decide_eq_true hyle)
    have hzid := hself ⟨z, q⟩ (AList.lookup_eq_some_iff_mem.mp hq) (of_decide_eq_true hzle)
    exact hyid.trans hzid.symm
  have hlen : r.prs.entries.length < 2 := by
    have hkeys : r.prs.keys.length = r.prs.entries.length := List.length_map _
    unfold quorum at hcount
    omega
  cases hentries : r.prs.entries with
  | nil => simp [sortedMatches, hentries] at hget
  | cons e es =>
    rw [hentries, List.length_cons] at hlen
    obtain rfl : es = [] := List.length_eq_zero_iff.mp (by omega)
    obtain ⟨y, p⟩ := e
    have hmci : p.matched = mci := Option.some.inj ((sortedMatches_single hentries).symm.trans hget)
    obtain rfl : y = r.id := hself ⟨y, p⟩ (by rw [hentries]; exact List.mem_cons_self) hmci.ge
    exact ⟨p, rfl, hmci⟩

/-- `maybe_commit` of a node that knows of no matches but its own. -/
theorem Unmatched.maybeCommit (h : r.Unmatched) : Ensures r.maybeCommit fun q =>
    q = (false, r) ∧ ¬r.Alone ∨ r.Alone ∧ r.raftLog.committed < q.2.raftLog.committed := by
  unfold Raft.maybeCommit
  refine Ensures.bind elemAt_eq fun mci hget => ?_
  refine Ensures.bindEq fun ⟨b, l⟩ hl => Ensures.pure ?_
  dsimp only
  by_cases hlt : r.raftLog.committed < mci
  · obtain ⟨p, hentries, rfl⟩ := h.of_match hget (by omega)
    have halone : r.raftLog.term p.matched = .ok r.term ↔ r.Alone := by
      constructor
      · intro hterm
        exact ⟨p, hentries, hlt, hterm⟩
      · rintro ⟨p', hentries', -, hterm⟩
        rw [hentries] at hentries'
        cases hentries'
        exact hterm
    unfold RaftLog.maybeCommit at hl
    rw [if_pos hlt] at hl
    split at hl
    · cases hl
    · next t ht =>
      split_ifs at hl with hterm
      · obtain ⟨l', hl', hl⟩ := bind_eq_ok.mp hl
        cases hl
        refine Or.inr ⟨halone.mp (by rw [ht, hterm]), ?_⟩
        have hcases := RaftLog.commitTo_committed _ _ hl'
        unfold RaftLog.commitTo at hl'
        rw [if_pos hlt] at hl'
        split_ifs at hl'
        cases hl'
        exact hlt
      · cases hl
        refine Or.inl ⟨rfl, fun ha => hterm ?_⟩
        have := halone.mpr ha
        rw [ht] at this
        exact Except.ok.inj this
  · unfold RaftLog.maybeCommit at hl
    rw [if_neg hlt] at hl
    cases hl
    refine Or.inl ⟨rfl, ?_⟩
    rintro ⟨p, hentries, hcommitted, -⟩
    have hmci : p.matched = mci := Option.some.inj ((sortedMatches_single hentries).symm.trans hget)
    omega

/-- `remove_node`, of a node that does not lead. -/
theorem obeys_removeNode (hstate : r.state ≠ .leader) (hun : r.Unmatched) (id : ℕ) :
    Ensures (r.removeNode id) fun r' =>
      ¬(r.delProgress id).Alone ∧ Obeys noMessage r r' ∨
        (r.delProgress id).Alone ∧ r'.state ≠ .leader ∧ r'.Unmatched ∧
          r.raftLog.committed < r'.raftLog.committed := by
  have hdel : Obeys noMessage r (r.delProgress id) :=
    .of_eq hstate rfl rfl rfl fun hun => (hun hstate).delProgress id
  unfold removeNode
  dsimp only
  refine Ensures.ite (fun hempty => Ensures.pure (Or.inl ⟨?_, hdel⟩)) fun _ => ?_
  · rintro ⟨p, hentries, -⟩
    simp [AList.keys, List.keys, hentries] at hempty
  refine Ensures.bind ((hun.delProgress id).maybeCommit.and
    (leads_maybeCommit (c := .confChange) (s := r))) fun q hq => ?_
  obtain ⟨⟨rfl, halone⟩ | ⟨halone, hlt⟩, hq₁⟩ := hq
  · refine Ensures.bind (P := (· = r.delProgress id)) (Ensures.pure rfl) ?_
    rintro _ rfl
    exact Ensures.ite (fun h => absurd h.1 hstate) fun _ => Ensures.pure (Or.inl ⟨halone, hdel⟩)
  · -- What is committed is sent to the learners.
    have hend : ∀ r₃, LeaderCourse .confChange r q.2 r₃ →
        Ensures (if r₃.state = .leader ∧ r₃.leadTransferee = id then
          (Pure.pure r₃.abortLeaderTransfer : Result Raft) else Pure.pure r₃) fun r' =>
            ¬(r.delProgress id).Alone ∧ Obeys noMessage r r' ∨ (r.delProgress id).Alone ∧
              r'.state ≠ .leader ∧ r'.Unmatched ∧
                r.raftLog.committed < r'.raftLog.committed := fun r₃ h₃ => by
      have hstate₃ : r₃.state ≠ .leader := (h₃.state.trans hq₁.state).trans_ne hstate
      rw [if_neg fun h => hstate₃ h.1]
      have hun₃ : r₃.Unmatched := LeaderCourse.unmatched (hq₁.trans h₃) nofun (hun.delProgress id)
      exact Ensures.pure (Or.inr ⟨halone, hstate₃, hun₃, hlt.trans_le h₃.committed_le⟩)
    refine Ensures.ite (fun _ => ?_) fun _ => Ensures.bind (Ensures.pure .refl) hend
    exact Ensures.bind (leads_bcastAppend (Or.inr rfl)) hend

end Raft

/-! ## Runs -/

/-- The application removes a node from the membership of one that does not lead, and leaves that as the
only voter, with entries of its term that it holds to match and that are not committed. -/
def HostEvent.CommitsAlone (h : Host) : HostEvent → Prop
  | .applyConfChange cc => cc.confChangeType = confChangeRemoveNode ∧ cc.nodeId ≠ 0 ∧
      h.node.raft.state ≠ .leader ∧ (h.node.raft.delProgress cc.nodeId).Alone
  | _ => False

namespace Host

/-- In a step, only a leader acts as one: the messages of a leader are queued by a node that leads, and
where the commit index is raised, the node leads, or a message tells it so. -/
structure OnlyLeads (t : Turn Host HostEvent) : Prop where
  /-- The messages of a leader. -/
  queued : ∀ x ∈ queuedMsgs t, Raft.isLeaderType x.type = true → t.after.node.raft.state = .leader
  /-- The commit index. -/
  committed : t.before.node.raft.raftLog.committed < t.after.node.raft.raftLog.committed →
    t.after.node.raft.state = .leader ∨ ∃ m, (t.event = .step m ∨ t.event = .call m) ∧
      m.Tells t.after.node.raft.raftLog.committed

/-- A node that does not lead knows of no matches but its own. -/
def Humble (h : Host) : Prop := h.node.raft.state ≠ .leader → h.node.raft.Unmatched

variable {h h' : Host} {e : HostEvent}

/-- A node that does not lead applies a configuration change. -/
theorem obeys_applyConfChange {n : RawNode} {cc : ConfChange} (hstate : n.raft.state ≠ .leader)
    (hun : n.raft.Unmatched) : Ensures (n.applyConfChange cc) fun p =>
      ¬HostEvent.CommitsAlone { node := n } (.applyConfChange cc) ∧
          Raft.Obeys Raft.noMessage n.raft p.2.raft ∨
        HostEvent.CommitsAlone { node := n } (.applyConfChange cc) ∧
          p.2.raft.state ≠ .leader ∧ p.2.raft.Unmatched ∧
            n.raft.raftLog.committed < p.2.raft.raftLog.committed := by
  have hsame : ∀ {x : Result Raft}, Ensures x (Raft.Obeys Raft.noMessage n.raft) →
      ¬HostEvent.CommitsAlone { node := n } (.applyConfChange cc) →
      Ensures (do
        let r ← x
        return (({ nodes := r.nodes, learners := r.learnerNodes } : ConfState),
          ({ n with raft := r } : RawNode))) fun p =>
        ¬HostEvent.CommitsAlone { node := n } (.applyConfChange cc) ∧
            Raft.Obeys Raft.noMessage n.raft p.2.raft ∨
          HostEvent.CommitsAlone { node := n } (.applyConfChange cc) ∧
            p.2.raft.state ≠ .leader ∧ p.2.raft.Unmatched ∧
              n.raft.raftLog.committed < p.2.raft.raftLog.committed :=
    fun hx hnot => Ensures.bind hx fun r hr => Ensures.pure (Or.inl ⟨hnot, hr⟩)
  unfold RawNode.applyConfChange
  by_cases hzero : cc.nodeId = 0
  · rw [if_pos hzero]
    exact hsame (Ensures.pure (.refl hstate)) fun h => h.2.1 hzero
  rw [if_neg hzero]
  by_cases hremove : cc.confChangeType = confChangeRemoveNode
  · rw [if_neg (by rw [hremove]; decide), if_neg (by rw [hremove]; decide), if_pos hremove]
    refine Ensures.bind (Raft.obeys_removeNode hstate hun cc.nodeId) fun r hr => Ensures.pure ?_
    refine hr.imp (And.imp_left fun hnot h => hnot h.2.2.2) (And.imp_left fun halone => ?_)
    exact ⟨hremove, hzero, hstate, halone⟩
  · have hnot : ¬HostEvent.CommitsAlone { node := n } (.applyConfChange cc) := fun h => hremove h.1
    rw [if_neg hremove]
    split_ifs
    · exact hsame (Raft.obeys_addNodeOrLearner hstate _ _) hnot
    · exact hsame (Raft.obeys_addNodeOrLearner hstate _ _) hnot
    · exact hsame (Ensures.pure (.refl hstate)) hnot
    · exact Ensures.bind (P := fun _ => False) Ensures.throw fun r hr => hr.elim

/-- A node that obeys acts as no leader. -/
theorem OnlyLeads.of_obeys {m : Message} (hob : Raft.Obeys m h.node.raft h'.node.raft)
    (hm : (e = .step m ∨ e = .call m) ∨ ∀ k, ¬m.Tells k) : OnlyLeads ⟨h, e, h'⟩ := by
  constructor
  · intro x hx htype
    obtain ⟨ms, hms, hnone⟩ := hob.msgs
    unfold queuedMsgs at hx
    dsimp only at hx
    rw [hms, List.drop_left] at hx
    rw [hnone x hx] at htype
    cases htype
  · intro hlt
    have htells := hob.commit hlt
    exact Or.inr (hm.elim (fun he => ⟨m, he, htells⟩) fun hnot => absurd htells (hnot _))

/-- A node that leads after the step. -/
theorem OnlyLeads.of_state (hstate : h'.node.raft.state = .leader) : OnlyLeads ⟨h, e, h'⟩ :=
  ⟨fun _ _ _ => hstate, fun _ => Or.inl hstate⟩

/-- In every step only a leader acts as one, exactly if the application does not leave alone a node that
does not lead. And a node that does not lead knows of no matches but its own, which it forgets when it gives
up the lead. -/
theorem onlyLeads_handle (hum : h.Humble) (hh : h.handle e = .ok h') :
    (OnlyLeads ⟨h, e, h'⟩ ↔ ¬e.CommitsAlone h) ∧ h'.Humble := by
  by_cases hconf : ∃ cc, e = .applyConfChange cc
  · obtain ⟨cc, rfl⟩ := hconf
    obtain ⟨p, hp, hh⟩ := bind_eq_ok.mp hh
    cases hh
    by_cases hl : h.node.raft.state = .leader
    · have hstate : p.2.raft.state = .leader :=
        (RawNode.steady_applyConfChange h.node cc p hp).1.state.trans hl
      exact ⟨⟨fun _ hc => hc.2.2.1 hl, fun _ => .of_state hstate⟩, fun hne => absurd hstate hne⟩
    · obtain ⟨hnot, hob⟩ | ⟨halone, hstate, hun, hlt⟩ := obeys_applyConfChange hl (hum hl) p hp
      · have honly : OnlyLeads ⟨h, .applyConfChange cc, { h with node := p.2 }⟩ :=
          .of_obeys hob (Or.inr (Message.not_tells_hup rfl))
        exact ⟨⟨fun _ => hnot, fun _ => honly⟩, fun _ => hob.unmatched hum⟩
      · refine ⟨⟨fun honly => ?_, fun hnot => absurd halone hnot⟩, fun _ => hun⟩
        obtain hlead | ⟨m, he, -⟩ := honly.committed hlt
        · exact absurd hlead hstate
        · exact absurd he (by simp)
  · have hnot : ¬e.CommitsAlone h := by
      intro hc
      cases e with
      | applyConfChange cc => exact hconf ⟨cc, rfl⟩
      | _ => exact hc
    suffices honly : OnlyLeads ⟨h, e, h'⟩ ∧ h'.Humble from ⟨⟨fun _ => hnot, fun _ => honly.1⟩, honly.2⟩
    cases hcause : e.cause with
    | none =>
      obtain ⟨l, msgs, readStates, size, heq, hcommitted, hmsgs, -⟩ := (handled hh).frame hcause
      have hnone : queuedMsgs ⟨h, e, h'⟩ = [] := by
        unfold queuedMsgs
        dsimp only
        rw [heq]
        obtain rfl | rfl := hmsgs
        · exact List.drop_length
        · exact List.drop_nil
      refine ⟨⟨fun x hx => ?_, fun hlt => ?_⟩, fun hstate => ?_⟩
      · rw [hnone] at hx
        cases hx
      · dsimp only at hlt
        rw [heq] at hlt
        exact absurd hlt (by rw [hcommitted]; exact lt_irrefl _)
      · rw [heq] at hstate ⊢
        exact (hum hstate).congr rfl rfl rfl
    | some c =>
      have hc : c ≠ .confChange ∧ ∀ m, c = .step m → e = .step m ∨ e = .call m := by
        cases e with
        | applyConfChange cc => exact absurd ⟨cc, rfl⟩ hconf
        | step m | call m | tick => cases hcause; simp
        | _ => cases hcause
      cases turns_handle hcause hc.1 hh with
      | leads hl hleads => 
        have hstate := hleads.state.trans hl
        exact ⟨.of_state hstate, fun hne => absurd hstate hne⟩
      | obeys m hm hob => exact ⟨.of_obeys hob (hm.imp_left (hc.2 m)), fun _ => hob.unmatched hum⟩
      | wins hwins => exact ⟨.of_state hwins.state, fun hne => absurd hwins.state hne⟩

/-- A node that was just built has no messages of a leader to send, and knows of no matches but its own. -/
theorem Built.humble {c : Config} (hb : Built c h) :
    (∀ x ∈ h.node.raft.msgs, Raft.isLeaderType x.type = false) ∧ h.Humble := by
  have hall := hb.holds (P := fun r => (∀ x ∈ r.msgs, Raft.isLeaderType x.type = false) ∧
    r.state ≠ .leader ∧ r.Unmatched) ?_ ?_ ?_
  · exact ⟨hall.1, fun _ => hall.2.2⟩
  · intro r t lead _ _ hmsgs
    have hnone : (r.becomeFollower t lead).msgs = [] := (r.reset_msgs t).trans hmsgs
    refine ⟨fun x hx => ?_, nofun, (r.unmatched_reset t).congr rfl rfl rfl⟩
    rw [hnone] at hx
    cases hx
  · intro r l hr
    exact ⟨hr.1, hr.2.1, hr.2.2.congr rfl rfl rfl⟩
  · intro r id hr
    refine (Raft.obeys_addNodeOrLearner hr.2.1 id false).mono fun r' hr' => ?_
    obtain ⟨ms, hms, hnone⟩ := hr'.msgs
    refine ⟨fun x hx => ?_, hr'.state, hr'.unmatched fun _ => hr.2.2⟩
    rw [hms] at hx
    exact (List.mem_append.mp hx).elim (hr.1 x) (hnone x)

end Host

/-- In a run of a node from its start, only a leader acts as one in every step, exactly if the application
never removes a node from the membership of one that does not lead, which that leaves as the only voter,
with entries of its term that it holds to match and that are not committed. The start itself queues no
messages of a leader. -/
theorem only_leader_acts_iff {c : Config} {h₀ h : Host} {ts : List (Turn Host HostEvent)}
    (hb : Host.Built c h₀) (hrun : Host.Run h₀ ts h) :
    (∀ x ∈ h₀.node.raft.msgs, Raft.isLeaderType x.type = false) ∧
      ((∀ t ∈ ts, Host.OnlyLeads t) ↔ ∀ t ∈ ts, ¬t.event.CommitsAlone t.before) := by
  obtain ⟨hmsgs, hum⟩ := hb.humble
  have hkept := (hrun.invariant (P := Host.Humble) (Q := fun _ => True)
    (fun t ht _ hp => (Host.onlyLeads_handle hp ht).2) (fun _ _ => trivial) hum).1
  refine ⟨hmsgs, forall₂_congr fun t ht => ?_⟩
  exact (Host.onlyLeads_handle (hkept t ht) (hrun.step_mem ht)).1

/-- The parameters of one of two voters, which polls before an election, beside a learner. -/
def learnerConfig : Config :=
  { id := 1, peers := [1, 2], learners := [3], electionTick := 2, heartbeatTick := 1
    maxSizePerMsg := 1024, maxInflightMsgs := 8, preVote := true }

/-- The follower gets two entries, starts a poll, and hears from its leader again, which tells it that the
first entry is committed. That entry removes the leader, and the application applies it. -/
def leftAlone : List (Turn Host HostEvent) × Host :=
  Trace.run Host.handle (Host.started learnerConfig)
    [.step { type := .msgApp, fromId := 2, toId := 1, term := 1, entries :=
        [{ type := .entryConfChange, term := 1, index := 1 }, { term := 1, index := 2 }] },
      .ready, .persist, .advance, .call { type := .msgHup },
      .step { type := .msgHeartbeat, fromId := 2, toId := 1, term := 1, commit := 1 },
      .ready, .persist, .applyConfChange { confChangeType := confChangeRemoveNode, nodeId := 2 }]

/-- That run starts without messages of a leader, and only a leader acts as one in the steps that do not
leave the follower alone. -/
theorem only_leader_acts_iff_leftAlone :
    (∀ x ∈ (Host.started learnerConfig).node.raft.msgs, Raft.isLeaderType x.type = false) ∧
      ((∀ t ∈ leftAlone.1, Host.OnlyLeads t) ↔ ∀ t ∈ leftAlone.1, ¬t.event.CommitsAlone t.before) :=
  only_leader_acts_iff (Host.boot_built (Host.boot_started (by decide +kernel))) (Trace.of_run _ _ _)

/-- A follower that is left alone commits the second entry by itself, and sends it to the learner. -/
theorem follower_acts_as_leader : ¬ ∀ (c : Config) (h₀ h : Host) (ts : List (Turn Host HostEvent)),
    Host.Built c h₀ → Host.Run h₀ ts h → ∀ t ∈ ts, Host.OnlyLeads t := by
  intro hall
  have honly := hall learnerConfig _ _ leftAlone.1
    (Host.boot_built (Host.boot_started (by decide +kernel))) (Trace.of_run _ _ _)
  have hbad : ∃ t ∈ leftAlone.1, (∃ x ∈ Host.queuedMsgs t, Raft.isLeaderType x.type = true) ∧
      t.after.node.raft.state ≠ .leader := by decide +kernel
  obtain ⟨t, ht, ⟨x, hx, htype⟩, hstate⟩ := hbad
  exact hstate ((honly t ht).queued x hx htype)

end RaftCpp
