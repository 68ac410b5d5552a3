import RaftCpp.Raft.Aside
import RaftCpp.Raft.Booting
import RaftCpp.Raft.Failures

/-!
# The members and their flags

Who is a member of the group stands in four places: the map of the voters, the map of the learners, a flag in
the progress of each of them, and a flag of the node itself. The constructor, the changes of the configuration
and the installation of a snapshot write them. They agree after each of these, with two exceptions, which leave
the flag of a learner that is no longer a member.
-/

namespace RaftCpp

open Outcome

namespace Roster

variable {M : Roster} {id : ℕ}

/-- Nobody is a voter and a learner, and everybody has the flag of the map that holds it. -/
structure Flagged (M : Roster) : Prop where
  disjoint : ∀ y, M.voters y ≠ none → M.learners y = none
  voters : ∀ y b, M.voters y = some b → b = false
  learners : ∀ y b, M.learners y = some b → b = true

/-- The node also takes itself for a learner exactly if it is one. -/
structure Consistent (M : Roster) : Prop extends Flagged M where
  own : M.isLearner = true ↔ M.learners M.id ≠ none

/-- The members with another voter. -/
def withVoter (M : Roster) (id : ℕ) : Roster where
  id := M.id
  isLearner := if M.id = id then false else M.isLearner
  voters y := if y = id then some false else M.voters y
  learners y := if y = id then none else M.learners y

/-- The members with another learner. -/
def withLearner (M : Roster) (id : ℕ) : Roster where
  id := M.id
  isLearner := if M.id = id then true else M.isLearner
  voters := M.voters
  learners y := if y = id then some true else M.learners y

/-- The members without one of them. -/
def without (M : Roster) (id : ℕ) : Roster where
  id := M.id
  isLearner := M.isLearner
  voters y := if y = id then none else M.voters y
  learners y := if y = id then none else M.learners y

namespace Flagged

/-- A voter is added, or a learner becomes one. -/
theorem withVoter (h : M.Flagged) (id : ℕ) : (M.withVoter id).Flagged := by
  unfold Roster.withVoter
  constructor
  · intro y hy
    dsimp only at hy ⊢
    split_ifs at hy ⊢
    · rfl
    · exact h.disjoint y hy
  · intro y b hy
    dsimp only at hy
    split_ifs at hy
    · exact (Option.some.inj hy).symm
    · exact h.voters y b hy
  · intro y b hy
    dsimp only at hy
    split_ifs at hy
    exact h.learners y b hy

/-- A learner is added. -/
theorem withLearner (h : M.Flagged) (hnew : M.voters id = none) : (M.withLearner id).Flagged := by
  unfold Roster.withLearner
  constructor
  · intro y hy
    have hne : y ≠ id := fun heq => hy (heq ▸ hnew)
    dsimp only
    rw [if_neg hne]
    exact h.disjoint y hy
  · exact h.voters
  · intro y b hy
    dsimp only at hy
    split_ifs at hy
    · exact (Option.some.inj hy).symm
    · exact h.learners y b hy

/-- Somebody is removed. -/
theorem without (h : M.Flagged) (id : ℕ) : (M.without id).Flagged := by
  unfold Roster.without
  constructor
  · intro y hy
    dsimp only at hy ⊢
    split_ifs at hy ⊢
    · exact absurd rfl hy
    · exact h.disjoint y hy
  · intro y b hy
    dsimp only at hy
    split_ifs at hy
    exact h.voters y b hy
  · intro y b hy
    dsimp only at hy
    split_ifs at hy
    exact h.learners y b hy

/-- A snapshot is installed. -/
theorem enrolled {M' : Roster} {cs : ConfState} (h : M.Enrolls cs M') : M'.Flagged := by
  obtain ⟨rfl, hdisjoint, -⟩ := h
  unfold Roster.enrolled
  constructor
  · intro y hy
    have hnode : y ∈ cs.nodes := by
      by_contra hno
      exact hy (if_neg hno)
    exact if_neg fun hlearner => hdisjoint y hlearner hnode
  · intro y b hy
    dsimp only at hy
    split_ifs at hy
    exact (Option.some.inj hy).symm
  · intro y b hy
    dsimp only at hy
    split_ifs at hy
    exact (Option.some.inj hy).symm

end Flagged

namespace Consistent

/-- A voter is added, or a learner becomes one. -/
theorem withVoter (h : M.Consistent) (id : ℕ) : (M.withVoter id).Consistent := by
  refine ⟨h.toFlagged.withVoter id, ?_⟩
  unfold Roster.withVoter
  by_cases hid : M.id = id
  · simp [hid]
  · simp [hid, h.own]

/-- A learner is added. -/
theorem withLearner (h : M.Consistent) (hnew : M.voters id = none) : (M.withLearner id).Consistent := by
  refine ⟨h.toFlagged.withLearner hnew, ?_⟩
  unfold Roster.withLearner
  by_cases hid : M.id = id
  · simp [hid]
  · simp [hid, h.own]

/-- Somebody is removed, but not a learner from its own members. -/
theorem without (h : M.Consistent) (hself : M.isLearner = true → M.id ≠ id) :
    (M.without id).Consistent := by
  refine ⟨h.toFlagged.without id, ?_⟩
  unfold Roster.without
  by_cases hid : M.id = id
  · have hflag : M.isLearner ≠ true := fun hl => hself hl hid
    simp [hid, hflag]
  · simp [hid, h.own]

/-- A snapshot is installed, that does not take the members from a learner. -/
theorem enrolled {M' : Roster} {cs : ConfState} (h : M.Enrolls cs M')
    (hcs : M.isLearner = true → ¬(cs.nodes = [] ∧ cs.learners = [])) : M'.Consistent := by
  refine ⟨Flagged.enrolled h, ?_⟩
  obtain ⟨rfl, -, hmember⟩ := h
  unfold Roster.enrolled
  by_cases hlearner : M.id ∈ cs.learners
  · simp [hlearner]
  by_cases hnode : M.id ∈ cs.nodes
  · simp [hlearner, hnode]
  -- A node that is not among the members has none.
  have hnone : cs.nodes = [] ∧ cs.learners = [] := by
    obtain h | h | h := hmember
    · exact h
    · exact absurd h hnode
    · exact absurd h hlearner
  have hflag : M.isLearner ≠ true := fun hl => hcs hl hnone
  simp [hlearner, hnode, hflag]

end Consistent

end Roster

namespace Raft

variable {r r' : Raft} {m : Message} {id : ℕ}

/-- The maps of the peers and the flags agree. -/
structure ConsistentMembers (r : Raft) : Prop where
  /-- Nobody is a voter and a learner. -/
  disjoint : ∀ y ∈ r.prs, y ∉ r.learnerPrs
  /-- The voters are not flagged. -/
  voters : ∀ y p, r.prs.lookup y = some p → p.isLearner = false
  /-- The learners are. -/
  learners : ∀ y p, r.learnerPrs.lookup y = some p → p.isLearner = true
  /-- The node takes itself for a learner exactly if it is one. -/
  own : r.isLearner = true ↔ r.id ∈ r.learnerPrs

/-- This is about the members alone. -/
theorem consistentMembers_iff : r.ConsistentMembers ↔ r.roster.Consistent := by
  have hvoters : ∀ y, r.roster.voters y ≠ none ↔ y ∈ r.prs := fun y => by
    rw [← AList.lookup_isSome, Option.isSome_iff_ne_none]
    exact not_congr Option.map_eq_none_iff
  have hlearners : ∀ y, r.roster.learners y ≠ none ↔ y ∈ r.learnerPrs := fun y => by
    rw [← AList.lookup_isSome, Option.isSome_iff_ne_none]
    exact not_congr Option.map_eq_none_iff
  constructor
  · intro h
    refine ⟨⟨?_, ?_, ?_⟩, ?_⟩
    · intro y hy
      exact not_not.mp fun hl => h.disjoint y ((hvoters y).mp hy) ((hlearners y).mp hl)
    · intro y b hy
      obtain ⟨p, hp, rfl⟩ := Option.map_eq_some_iff.mp hy
      exact h.voters y p hp
    · intro y b hy
      obtain ⟨p, hp, rfl⟩ := Option.map_eq_some_iff.mp hy
      exact h.learners y p hp
    · exact h.own.trans (hlearners r.id).symm
  · intro h
    constructor
    · exact fun y hy hl => (hlearners y).mpr hl (h.disjoint y ((hvoters y).mpr hy))
    · exact fun y p hp => h.voters y _ (Option.map_eq_some_iff.mpr ⟨p, hp, rfl⟩)
    · exact fun y p hp => h.learners y _ (Option.map_eq_some_iff.mpr ⟨p, hp, rfl⟩)
    · exact h.own.trans (hlearners r.id)

/-! ## Changing the configuration -/

/-- The end of `add_node_or_learner` sets the flag of the node. -/
theorem roster_markActive (r : Raft) (id : ℕ) (b : Bool) : Ensures (r.markActive id b) fun r' =>
    r'.roster = { r.roster with isLearner := if r.id = id then b else r.isLearner } := by
  unfold markActive
  refine Ensures.bind peerProgress_eq fun pr hget => Ensures.pure ?_
  rw [roster_putProgress hget (by rfl)]
  unfold roster
  split_ifs
  · rfl
  · rfl

/-- An entry of a map is written. -/
theorem flags_insert (prs : AList fun _ : ℕ => Progress) (id : ℕ) (p : Progress) :
    (fun y => ((prs.insert id p).lookup y).map (·.isLearner)) =
      fun y => if y = id then some p.isLearner else (prs.lookup y).map (·.isLearner) := by
  funext y
  rw [AList.lookup_insert_eq]
  split_ifs
  · rfl
  · rfl

/-- An entry of a map is erased. -/
theorem flags_erase (prs : AList fun _ : ℕ => Progress) (id : ℕ) :
    (fun y => ((prs.erase id).lookup y).map (·.isLearner)) =
      fun y => if y = id then none else (prs.lookup y).map (·.isLearner) := by
  funext y
  by_cases hy : y = id
  · rw [hy, AList.lookup_erase, if_pos rfl]
    rfl
  · rw [AList.lookup_erase_ne hy, if_neg hy]

/-- `add_node_or_learner` changes nothing, or makes the node a voter, or makes a learner of one that was
unknown. -/
theorem roster_addNodeOrLearner (r : Raft) (id : ℕ) (b : Bool) : Ensures (r.addNodeOrLearner id b) fun r' =>
    r'.roster = r.roster ∨ r'.roster = r.roster.withVoter id ∨
      r.roster.voters id = none ∧ r'.roster = r.roster.withLearner id := by
  unfold addNodeOrLearner
  cases hget : r.getProgress id with
  | none =>
    obtain ⟨hvoter, -⟩ := Option.or_eq_none_iff.mp hget
    dsimp only
    unfold setProgress
    cases b with
    | false =>
      refine (roster_markActive _ id false).mono fun r' hr' => Or.inr (Or.inl ?_)
      rw [hr']
      unfold roster Roster.withVoter
      dsimp only
      rw [flags_insert, flags_erase]
      rfl
    | true =>
      have hnew : id ∉ r.prs := AList.lookup_eq_none.mp hvoter
      rw [if_neg (by simp), if_neg hnew]
      refine (roster_markActive _ id true).mono fun r' hr' => Or.inr (Or.inr ⟨?_, ?_⟩)
      · exact Option.map_eq_none_iff.mpr hvoter
      · rw [hr']
        unfold roster Roster.withLearner
        dsimp only
        rw [flags_insert]
  | some pr =>
    refine Ensures.ite (fun _ => Ensures.pure (Or.inl rfl)) fun hvoter => ?_
    refine Ensures.ite (fun _ => Ensures.pure (Or.inl rfl)) fun hsame => ?_
    have hb : b = false := by
      cases b with
      | false => rfl
      | true => simp_all
    subst hb
    refine (roster_markActive _ id false).mono fun r' hr' => Or.inr (Or.inl ?_)
    rw [hr']
    unfold roster Roster.withVoter
    dsimp only
    rw [flags_insert, flags_erase]

/-- `del_progress` removes the node from both maps. -/
theorem roster_delProgress (r : Raft) (id : ℕ) : (r.delProgress id).roster = r.roster.without id := by
  unfold roster delProgress Roster.without
  dsimp only
  rw [flags_erase, flags_erase]

/-- So does `remove_node`. -/
theorem roster_removeNode (r : Raft) (id : ℕ) : Ensures (r.removeNode id) fun r' =>
    r'.roster = r.roster.without id := by
  have hdel := r.roster_delProgress id
  have hend : ∀ r₁ : Raft, r₁.standing = (r.delProgress id).standing →
      Ensures (if r₁.state = .leader ∧ r₁.leadTransferee = id then
        (Pure.pure r₁.abortLeaderTransfer : Result Raft) else Pure.pure r₁) fun r' =>
          r'.roster = r.roster.without id := fun r₁ h₁ => by
    have hroster : r₁.roster = r.roster.without id := (congrArg Standing.roster h₁).trans hdel
    exact Ensures.ite (fun _ => Ensures.pure hroster) fun _ => Ensures.pure hroster
  unfold removeNode
  refine Ensures.ite (fun _ => Ensures.pure hdel) fun _ => ?_
  refine Ensures.bind (keepsStanding_maybeCommit _) fun ⟨committed, r₁⟩ h₁ => ?_
  refine Ensures.ite (fun _ => ?_) fun _ => hend r₁ h₁
  exact Ensures.bind (keepsStanding_bcastAppend _) fun r₂ h₂ => hend r₂ (h₂.trans h₁)

/-- `add_node_or_learner` does not make a learner of a voter: it ignores the request. -/
theorem avoids_addNodeOrLearner (r : Raft) (id : ℕ) (b : Bool) (y : ℕ) :
    Avoids (.voterToLearner y) (r.addNodeOrLearner id b) := by
  have hactive : ∀ r₁ : Raft, Avoids (.voterToLearner y) (r₁.markActive id b) := fun r₁ => by
    unfold markActive
    exact avoids_bind.mpr ⟨failsBelow_avoids (failsBelow_peerProgress _ _) rfl, fun _ _ => nofun⟩
  unfold addNodeOrLearner
  cases hget : r.getProgress id with
  | none =>
    have hnew : id ∉ r.prs := AList.lookup_eq_none.mp (Option.or_eq_none_iff.mp hget).1
    refine avoids_bind.mpr ⟨?_, fun r₁ _ => hactive r₁⟩
    unfold setProgress
    cases b with
    | false => exact nofun
    | true =>
      rw [if_neg (by simp), if_neg hnew]
      exact nofun
  | some pr => simp [hactive]

end Raft

/-! ## The other events -/

/-- A leader does nothing to its members. -/
theorem LeaderMove.roster {c : Cause} {s r r' : Raft} (h : LeaderMove c s r r') : r'.roster = r.roster := by
  cases h with
  | send x hx hne h =>
    obtain ⟨rfl, -⟩ := Raft.send_eq h
    rfl
  | peer y p p' hget h => exact Raft.roster_putProgress hget h.extends.isLearner
  | serve m hc htype hnow h => exact congrArg Standing.roster (Raft.onlyReads_serve m hnow _ h).standing
  | confirm m hc htype hknown h => exact congrArg Standing.roster (Raft.onlyReads_ackRead m _ h).standing
  | _ => rfl

/-- In any number of moves. -/
theorem LeaderCourse.roster {c : Cause} {s r r' : Raft} (h : LeaderCourse c s r r') :
    r'.roster = r.roster := by
  induction h with
  | refl => rfl
  | tail _ hmove ih => exact hmove.roster.trans ih

namespace Raft

variable {r : Raft} {m : Message}

/-- The message carries a snapshot that the node takes over: the message is not of a lower term, the node does
not lead its term, and it lacks the snapshot. -/
def Adopts (r : Raft) (m : Message) : Prop :=
  m.type = .msgSnap ∧ r.Lacks m.snapshot ∧ (m.term = 0 ∨ r.term ≤ m.term) ∧
    (r.state = .leader → r.term < m.term)

instance (r : Raft) (m : Message) : Decidable (r.Adopts m) := inferInstanceAs (Decidable (_ ∧ _ ∧ _ ∧ _))

/-- `step` changes the members only by the installation of a snapshot. -/
theorem roster_step (r : Raft) (m : Message) : Ensures (r.step m) fun q => q.2.roster = r.roster ∨
    r.Adopts m ∧ r.roster.Enrolls m.snapshot.metadata.confState q.2.roster := by
  by_cases hstale : m.term = 0 ∨ r.term ≤ m.term
  · apply step_ensures
    · by_cases hl : r.state = .leader
      · refine (leads_stepBody hl m).mono fun q hq => Or.inl ?_
        obtain hleads | heq := hq
        · exact hleads.roster
        · rw [heq]
          exact r.roster_reset r.term
      · refine (r.takes_stepBody hl m).mono fun q hq => ?_
        obtain heq | ⟨htype, hlacks, henrolls⟩ := hq.roster
        · exact Or.inl heq
        · exact Or.inr ⟨⟨htype, hlacks, hstale, fun h => absurd h hl⟩, henrolls⟩
    · -- The node enters the term of the message as a follower.
      intro lead _ hlt
      have hfollow := r.aside_becomeFollower m.term lead
      have hstate : (r.becomeFollower m.term lead).state ≠ .leader := nofun
      refine (takes_stepBody hstate m).mono fun q hq => ?_
      obtain heq | ⟨htype, hlacks, henrolls⟩ := (hfollow.trans_takes (r.reset_raftLog m.term) hq).roster
      · exact Or.inl heq
      · exact Or.inr ⟨⟨htype, hlacks, hstale, fun _ => hlt⟩, henrolls⟩
    · exact Or.inl rfl
    · exact (r.aside_stepLowerTerm m).mono fun r' hr' => Or.inl hr'.roster
  · obtain ⟨hzero, hlt⟩ := not_or.mp hstale
    unfold step
    rw [if_neg hzero, if_neg (by omega), if_pos (by omega)]
    exact Ensures.bind (r.aside_stepLowerTerm m) fun r' hr' => Ensures.pure (Or.inl hr'.roster)

/-- A tick does nothing to the members. -/
theorem roster_tick (r : Raft) : Ensures r.tick fun r' => r'.roster = r.roster := by
  by_cases hl : r.state = .leader
  · refine (leads_tick hl).mono fun r' hr' => ?_
    obtain hleads | ⟨heartbeat, election, rfl⟩ := hr'
    · exact hleads.roster
    · exact roster_reset _ r.term
  · rw [tick_election hl]
    exact r.aside_tickElection.mono fun r' hr' => hr'.roster

end Raft

/-! ## Runs -/

/-- The event takes from a learner its place among the members: it is removed, or installs a snapshot that has
no members. -/
def HostEvent.Disowns (r : Raft) : HostEvent → Prop
  | .applyConfChange cc =>
    r.isLearner = true ∧ cc.confChangeType = confChangeRemoveNode ∧ cc.nodeId = r.id
  | .step m | .call m =>
    r.isLearner = true ∧ r.Adopts m ∧ m.snapshot.metadata.confState.nodes = [] ∧
      m.snapshot.metadata.confState.learners = []
  | _ => False

instance (r : Raft) (e : HostEvent) : Decidable (e.Disowns r) :=
  match e with
  | .applyConfChange _ => inferInstanceAs (Decidable (_ ∧ _ ∧ _))
  | .step _ | .call _ => inferInstanceAs (Decidable (_ ∧ _ ∧ _ ∧ _))
  | .tick | .ready | .persist | .advance | .createSnapshot _ _ _ | .compact _ => .isFalse id

/-- What an event can do to the members of a node. -/
inductive Raft.Enrolment (r : Raft) : HostEvent → Roster → Prop
  /-- Nothing. -/
  | same {e : HostEvent} : r.Enrolment e r.roster
  /-- A voter is added, or a learner becomes one. -/
  | withVoter {cc : ConfChange} : r.Enrolment (.applyConfChange cc) (r.roster.withVoter cc.nodeId)
  /-- A learner is added. -/
  | withLearner {cc : ConfChange} (hnew : r.roster.voters cc.nodeId = none) :
      r.Enrolment (.applyConfChange cc) (r.roster.withLearner cc.nodeId)
  /-- Somebody is removed. -/
  | without {cc : ConfChange} (htype : cc.confChangeType = confChangeRemoveNode) :
      r.Enrolment (.applyConfChange cc) (r.roster.without cc.nodeId)
  /-- A snapshot is installed. -/
  | installs {e : HostEvent} {m : Message} {M : Roster} (he : e.message = some m) (hadopts : r.Adopts m)
      (henrolls : r.roster.Enrolls m.snapshot.metadata.confState M) : r.Enrolment e M

namespace Raft.Enrolment

variable {r : Raft} {e : HostEvent} {M : Roster}

/-- The maps and the flags in them agree after every event. -/
theorem flagged (h : r.Enrolment e M) (hr : r.roster.Flagged) : M.Flagged := by
  cases h with
  | same => exact hr
  | withVoter => exact hr.withVoter _
  | withLearner hnew => exact hr.withLearner hnew
  | without htype => exact hr.without _
  | installs he hadopts henrolls => exact Roster.Flagged.enrolled henrolls

/-- So does the flag of the node, unless the event takes from a learner its place among the members. -/
theorem consistent (h : r.Enrolment e M) (hr : r.roster.Consistent) (hkeep : ¬e.Disowns r) :
    M.Consistent := by
  cases h with
  | same => exact hr
  | withVoter => exact hr.withVoter _
  | withLearner hnew => exact hr.withLearner hnew
  | without htype => exact hr.without fun hl hid => hkeep ⟨hl, htype, hid.symm⟩
  | installs he hadopts henrolls =>
    refine Roster.Consistent.enrolled henrolls fun hl hnone => ?_
    cases e with
    | step m | call m =>
      cases he
      exact hkeep ⟨hl, hadopts, hnone⟩
    | _ => cases he

end Raft.Enrolment

namespace RawNode

/-- What a change of the configuration does to the members. -/
theorem enrolment_applyConfChange (n : RawNode) (cc : ConfChange) :
    Ensures (n.applyConfChange cc) fun p => n.raft.Enrolment (.applyConfChange cc) p.2.raft.roster := by
  have hadd : ∀ b, Ensures (n.raft.addNodeOrLearner cc.nodeId b) fun r' =>
      n.raft.Enrolment (.applyConfChange cc) r'.roster := fun b =>
    (n.raft.roster_addNodeOrLearner cc.nodeId b).mono fun r' hr' => by
      obtain heq | heq | ⟨hnew, heq⟩ := hr'
      · rw [heq]
        exact .same
      · rw [heq]
        exact .withVoter
      · rw [heq]
        exact .withLearner hnew
  have hremove : cc.confChangeType = confChangeRemoveNode → Ensures (n.raft.removeNode cc.nodeId) fun r' =>
      n.raft.Enrolment (.applyConfChange cc) r'.roster := fun htype =>
    (n.raft.roster_removeNode cc.nodeId).mono fun r' hr' => by
      rw [hr']
      exact .without htype
  unfold applyConfChange
  refine Ensures.ite (fun _ => Ensures.pure .same) fun _ => ?_
  refine Ensures.ite (fun _ => Ensures.bind (hadd false) fun r' hr' => Ensures.pure hr') fun _ => ?_
  refine Ensures.ite (fun _ => Ensures.bind (hadd true) fun r' hr' => Ensures.pure hr') fun _ => ?_
  refine Ensures.ite (fun htype => Ensures.bind (hremove htype) fun r' hr' => Ensures.pure hr') fun _ => ?_
  exact Ensures.ite (fun _ => Ensures.pure .same) fun _ => Ensures.bind Ensures.throw fun _ hr' => hr'

/-- No change of the configuration makes a learner of a voter. -/
theorem avoids_applyConfChange (n : RawNode) (cc : ConfChange) (y : ℕ) :
    Avoids (.voterToLearner y) (n.applyConfChange cc) := by
  have hremove : Avoids (.voterToLearner y) (n.raft.removeNode cc.nodeId) :=
    failsBeside_avoids (n.raft.failsBeside_removeNode cc.nodeId) rfl
  unfold applyConfChange
  simp [n.raft.avoids_addNodeOrLearner, hremove]

end RawNode

/-- What an event does to the members. -/
theorem Host.enrolment_handle {h h' : Host} {e : HostEvent} (hh : h.handle e = .ok h') :
    h.node.raft.Enrolment e h'.node.raft.roster := by
  have hmessage : ∀ {m : Message}, e.cause = some (.step m) → h.node.raft.Enrolment e h'.node.raft.roster := by
    intro m hc
    obtain heq | ⟨status, hstep⟩ := stepped hc hh
    · rw [heq]
      exact .same
    · obtain hroster | ⟨hadopts, henrolls⟩ := h.node.raft.roster_step m _ hstep
      · dsimp only at hroster
        rw [hroster]
        exact .same
      · exact .installs (HostEvent.message_of_cause hc) hadopts henrolls
  cases e with
  | step m | call m => exact hmessage rfl
  | tick =>
    obtain ⟨n, hn, hh⟩ := bind_eq_ok.mp hh
    cases hh
    obtain ⟨r, hr, hn⟩ := bind_eq_ok.mp hn
    cases hn
    have hroster : r.roster = h.node.raft.roster := h.node.raft.roster_tick r hr
    dsimp only
    rw [hroster]
    exact .same
  | applyConfChange cc =>
    obtain ⟨p, hp, hh⟩ := bind_eq_ok.mp hh
    cases hh
    exact h.node.enrolment_applyConfChange cc p hp
  | _ =>
    obtain ⟨l, msgs, readStates, size, heq, -⟩ := (handled hh).frame rfl
    rw [heq]
    exact .same

/-- The constructor leaves the members consistent. -/
theorem Raft.new_consistent (c : Config) : Ensures (Raft.new c) fun r => r.roster.Consistent := by
  -- The voters come first: there are no learners yet.
  have hpeers : ∀ (peers : List ℕ) (r : Raft), r.roster.Consistent → (∀ y, r.roster.learners y = none) →
      (r.addPeers peers).roster.Consistent := by
    intro peers
    induction peers with
    | nil => exact fun r h _ => h
    | cons peer peers ih =>
      intro r h hnone
      have hroster : ({ r with prs := r.prs.insert peer { Progress.new r.maxInflight with next := 1 } } :
          Raft).roster = { r.roster with
            voters := fun y => if y = peer then some false else r.roster.voters y } := by
        unfold roster
        dsimp only
        rw [flags_insert]
        rfl
      refine ih _ ?_ (by rw [hroster]; exact hnone)
      rw [hroster]
      refine ⟨⟨?_, ?_, ?_⟩, ?_⟩
      · exact fun y _ => hnone y
      · intro y b hy
        dsimp only at hy
        split_ifs at hy
        · exact (Option.some.inj hy).symm
        · exact h.voters y b hy
      · exact h.learners
      · exact h.own
  have hlearners : ∀ (learners : List ℕ) (r : Raft), r.roster.Consistent →
      Ensures (r.addLearners learners) fun r' => r'.roster.Consistent := by
    intro learners r h
    unfold addLearners
    refine Ensures.foldlM (P := fun r' : Raft => r'.roster.Consistent) _ (fun r₁ learner _ h₁ => ?_) r h
    refine Ensures.ite (fun _ => Ensures.error) fun hnew => Ensures.ok ?_
    have hroster : ({ r₁ with
        learnerPrs := r₁.learnerPrs.insert learner
          { Progress.new r₁.maxInflight with next := 1, isLearner := true }
        isLearner := r₁.isLearner || r₁.id == learner } : Raft).roster =
          r₁.roster.withLearner learner := by
      unfold roster Roster.withLearner
      dsimp only
      rw [flags_insert]
      by_cases hid : r₁.id = learner
      · simp [hid]
      · simp [hid]
    rw [hroster]
    exact h₁.withLearner (Option.map_eq_none_iff.mpr (AList.lookup_eq_none.mpr hnew))
  have hblank : (blank c).roster.Consistent :=
    ⟨⟨fun _ _ => rfl, nofun, nofun⟩, nofun, fun h => absurd rfl h⟩
  -- What follows leaves the members alone.
  have hend : ∀ r : Raft, r.roster.Consistent →
      ((if c.applied > 0 then { r with raftLog := r.raftLog.appliedTo c.applied } else r).becomeFollower
        (if c.applied > 0 then { r with raftLog := r.raftLog.appliedTo c.applied } else r).term
          0).roster.Consistent := by
    intro r h
    rw [(aside_becomeFollower _ _ 0).roster]
    split_ifs
    · exact h
    · exact h
  unfold Raft.new
  refine Ensures.bind Ensures.any fun ⟨peers, learners⟩ _ => ?_
  refine Ensures.bind (hlearners learners _ (hpeers peers _ hblank fun y => rfl)) fun r h => ?_
  refine Ensures.ite (fun _ => ?_) fun _ => Ensures.pure (hend r h)
  refine Ensures.bind (loadState_spec _ _) fun r' hr' => ?_
  obtain ⟨rfl, -⟩ := hr'
  exact Ensures.pure (hend _ h)

namespace Host

/-- A node that was just built has consistent members. -/
theorem Built.consistent {c : Config} {h : Host} (hb : Built c h) : h.node.raft.roster.Consistent := by
  cases hb with
  | restart hc hn =>
    obtain ⟨r, hr, hn⟩ := bind_eq_ok.mp hn
    cases hn
    exact Raft.new_consistent _ r hr
  | start hc hn =>
    obtain ⟨r, hr, hn⟩ := bind_eq_ok.mp hn
    have hr : r.roster.Consistent := Raft.new_consistent _ r hr
    split_ifs at hn with hzero
    · obtain ⟨l, hl, hn⟩ := bind_eq_ok.mp hn
      obtain ⟨r', hr', hn⟩ := bind_eq_ok.mp hn
      cases hn
      refine Ensures.foldlM (P := fun r₁ : Raft => r₁.roster.Consistent) _ (fun r₁ peer _ h₁ => ?_) _ ?_ r' hr'
      · refine (r₁.roster_addNodeOrLearner peer.1 false).mono fun r₂ h₂ => ?_
        obtain heq | heq | ⟨hnew, heq⟩ := h₂
        · rwa [heq]
        · rw [heq]
          exact h₁.withVoter peer.1
        · rw [heq]
          exact h₁.withLearner hnew
      · have hroster : (r.becomeFollower 1 0).roster = r.roster := (r.aside_becomeFollower 1 0).roster
        rw [← hroster] at hr
        exact hr
    · cases hn
      exact hr

end Host

/-- The members and their flags: in every run of a node from its start, whatever it is handed and however its
configuration is changed, and as long as no learner is removed from its own members or installs a snapshot
that has none, the voters and the learners are distinct, the flag in the progress of a peer says which of them
it is, and the node takes itself for a learner exactly if it is one. No change of the configuration then makes
a learner of a voter. -/
theorem members_consistent {c : Config} {h₀ h : Host} {turns : List (Turn Host HostEvent)}
    (hb : Host.Built c h₀) (hrun : Host.Run h₀ turns h)
    (hkeep : ∀ t ∈ turns, ¬t.event.Disowns t.before.node.raft) :
    h.node.raft.ConsistentMembers ∧
      ∀ (cc : ConfChange) (y : ℕ), Avoids (.voterToLearner y) (h.handle (.applyConfChange cc)) := by
  have hM := Trace.invariant (P := fun h' : Host => h'.node.raft.roster.Consistent)
    (fun t ht hq hP => (Host.enrolment_handle ht).consistent hP hq) hrun hkeep hb.consistent
  refine ⟨Raft.consistentMembers_iff.mpr hM.2, fun cc y => ?_⟩
  unfold Host.handle
  exact avoids_bind.mpr ⟨h.node.avoids_applyConfChange cc y, fun _ _ => nofun⟩

/-- The parameters of a learner of three voters. -/
def joiningConfig : Config := { voterConfig with id := 4, learners := [4] }

/-- Another learner is added, becomes a voter, and cannot become a learner again. A voter is removed. Then a
snapshot comes, in which the node itself is a voter. -/
def membersChanged : List (Turn Host HostEvent) × Host :=
  Trace.run Host.handle (Host.started joiningConfig)
    [.applyConfChange { confChangeType := confChangeAddLearnerNode, nodeId := 5 },
      .applyConfChange { confChangeType := confChangeAddNode, nodeId := 5 },
      .applyConfChange { confChangeType := confChangeAddLearnerNode, nodeId := 5 },
      .applyConfChange { confChangeType := confChangeRemoveNode, nodeId := 1 },
      .step { type := .msgSnap, fromId := 2, toId := 4, term := 1, snapshot := Raft.snapshotOf [4, 2] [6] }]

/-- It is installed. -/
theorem members_consistent_changed :
    (membersChanged.2.node.raft.nodes = [2, 4] ∧ membersChanged.2.node.raft.learnerNodes = [6]) ∧
      membersChanged.2.node.raft.ConsistentMembers ∧ ∀ (cc : ConfChange) (y : ℕ),
        Avoids (.voterToLearner y) (membersChanged.2.handle (.applyConfChange cc)) :=
  ⟨by decide +kernel, members_consistent (Host.boot_built (Host.boot_started (by decide +kernel)))
    (Trace.of_run _ _ _) (by decide +kernel)⟩

/-- A learner is removed from its own members. -/
def learnerRemoved : List (Turn Host HostEvent) × Host :=
  Trace.run Host.handle (Host.started joiningConfig)
    [.applyConfChange { confChangeType := confChangeRemoveNode, nodeId := 4 }]

/-- `remove_node` leaves the flag of the node, which goes on to take itself for a learner. -/
theorem removed_learner_keeps_flag : ¬∀ (c : Config) (h₀ h : Host) (turns : List (Turn Host HostEvent)),
    Host.Built c h₀ → Host.Run h₀ turns h → h.node.raft.ConsistentMembers := by
  intro hall
  have hM := hall joiningConfig _ learnerRemoved.2 learnerRemoved.1
    (Host.boot_built (Host.boot_started (by decide +kernel))) (Trace.of_run _ _ _)
  have hflag : learnerRemoved.2.node.raft.isLearner = true := by decide +kernel
  have hgone : learnerRemoved.2.node.raft.id ∉ learnerRemoved.2.node.raft.learnerPrs := by decide +kernel
  exact hgone (hM.own.mp hflag)

end RaftCpp
