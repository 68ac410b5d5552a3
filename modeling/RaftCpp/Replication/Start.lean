import RaftCpp.Raft.Booting
import RaftCpp.Replication.Roles
import RaftCpp.Replication.Runs

/-!
# The start of a cluster

What the constructors leave behind over an empty storage, and that a cluster that has just started is
related to the state in which the protocol starts.
-/

namespace RaftCpp

open Consensus Outcome

/-! ## The constructor -/

namespace Raft

/-- A node over an empty storage, with the given voters, before it hears of anything. -/
structure Started (r : Raft) (id : ℕ) (preVote : Bool) (voters : ℕ → Prop) : Prop where
  /-- The identity. -/
  id : r.id = id
  /-- The setting of pre-votes. -/
  preVote : r.preVote = preVote
  /-- The voters. -/
  voters : ∀ y, y ∈ r.prs ↔ voters y
  /-- The node follows. -/
  state : r.state = .follower
  /-- The node has not voted. -/
  vote : r.vote = 0
  /-- The node has nothing to send. -/
  msgs : r.msgs = []

/-- What a node is after `become_follower`. -/
theorem becomeFollower_started (r : Raft) (t lead : ℕ) (hvote : r.vote = 0) (hmsgs : r.msgs = []) :
    (r.becomeFollower t lead).Started r.id r.preVote (· ∈ r.prs) where
  id := reset_id r t
  preVote := reset_preVote r t
  voters y := mem_reset_prs r t y
  state := rfl
  vote := by
    rw [show (r.becomeFollower t lead).vote = (r.reset t).vote from rfl, reset_vote, hvote, ite_self]
  msgs := (reset_msgs r t).trans hmsgs

/-- The members of a configuration over an empty storage. -/
theorem initialMembers_empty {c : Config} (hst : c.storage = .empty) :
    initialMembers c = .ok (c.peers, c.learners) := by
  unfold initialMembers
  rw [hst]
  rfl

/-- The constructor over an empty storage: the members are those of the configuration, and the log is
empty. -/
theorem new_spec {c : Config} (hst : c.storage = .empty) (happ : c.applied = 0) :
    Ensures (Raft.new c) fun r => r.Started c.id c.preVote (· ∈ c.peers) ∧ r.term = 0 ∧
      r.raftLog = RaftLog.new .empty c.maxCommittedSizePerReady ∧
      r.isLearner = decide (c.id ∈ c.learners) ∧ (c.learners = [] → ∀ y, y ∉ r.learnerPrs) := by
  obtain ⟨prs, hprs, hmem⟩ := addPeers_spec c.peers (blank c)
  have hadd := addLearners_spec c.learners { blank c with prs := prs }
  unfold Raft.new
  rw [initialMembers_empty hst]
  refine Ensures.bind (P := fun m => m = (c.peers, c.learners)) (Ensures.ok rfl) ?_
  rintro _ rfl
  dsimp only
  rw [hprs]
  refine Ensures.bind hadd ?_
  rintro _ ⟨lprs, rfl, hlprs⟩
  have hempty : c.storage.initialState.1.isEmptyState = true := by
    rw [hst]
    rfl
  rw [if_neg (not_not.mpr hempty), happ]
  refine Ensures.pure ?_
  rw [if_neg (Nat.lt_irrefl 0)]
  have h := becomeFollower_started
    { blank c with
      prs := prs
      learnerPrs := lprs
      isLearner := (blank c).isLearner || decide ((blank c).id ∈ c.learners) } 0 0 rfl rfl
  refine ⟨⟨h.id, h.preVote, fun y => (h.voters y).trans ?_, rfl, h.vote, h.msgs⟩, ?_, ?_, ?_, ?_⟩
  · rw [hmem]
    simp [blank]
  · exact reset_term _ _
  · refine (reset_raftLog _ _).trans ?_
    simp only [blank, hst]
  · refine (reset_isLearner _ _).trans ?_
    rw [blank, Bool.false_or]
  · intro hnil y
    refine (mem_reset_learnerPrs _ _ y).not.mpr ?_
    simp [hlprs, hnil, blank]

/-- Marking a voter as active keeps the members. -/
theorem markActive_spec {r : Raft} (hn : r.isLearner = false) {v : ℕ} (hv : v ∈ r.prs) :
    Ensures (r.markActive v false) fun r' => ∃ prs, r' = { r with prs := prs } ∧
      ∀ y, y ∈ prs ↔ y ∈ r.prs := by
  have hself : (if r.id = v then { r with isLearner := false } else r) = r := by
    split
    · rw [← hn]
    · rfl
  unfold markActive
  dsimp only
  rw [hself]
  refine Ensures.bind (P := fun _ => True) (fun _ _ => trivial) fun p _ => Ensures.pure ?_
  refine ⟨r.prs.insert v { p with recentActive := true }, ?_, fun y => ?_⟩
  · unfold putProgress
    rw [if_pos hv]
  · rw [AList.mem_insert]
    constructor
    · rintro (rfl | hy)
      · exact hv
      · exact hy
    · exact Or.inr

/-- Without learners, `add_node` adds a voter. -/
theorem addNode_spec {r : Raft} (hl : ∀ y, y ∉ r.learnerPrs) (hn : r.isLearner = false) (v : ℕ) :
    Ensures (r.addNode v) fun r' => ∃ prs lprs, r' = { r with prs := prs, learnerPrs := lprs } ∧
      (∀ y, y ∈ prs ↔ y ∈ r.prs ∨ y = v) ∧ ∀ y, y ∉ lprs := by
  have hadd : ∀ p : Progress, Ensures
      (markActive { r with learnerPrs := r.learnerPrs.erase v, prs := r.prs.insert v p } v false)
      fun r' => ∃ prs lprs, r' = { r with prs := prs, learnerPrs := lprs } ∧
        (∀ y, y ∈ prs ↔ y ∈ r.prs ∨ y = v) ∧ ∀ y, y ∉ lprs := by
    intro p
    have hv : v ∈ r.prs.insert v p := AList.mem_insert _ |>.mpr (Or.inl rfl)
    refine (markActive_spec
      (r := { r with learnerPrs := r.learnerPrs.erase v, prs := r.prs.insert v p }) hn hv).mono ?_
    rintro _ ⟨prs, rfl, hmem⟩
    refine ⟨prs, _, rfl, fun y => ?_, fun y hy => ?_⟩
    · rw [hmem, AList.mem_insert, or_comm]
    · exact hl y (AList.mem_erase.mp hy).2
  unfold addNode addNodeOrLearner
  cases hp : r.getProgress v with
  | none =>
    refine Ensures.bind (P := fun r' => ∃ p, r' =
      { r with learnerPrs := r.learnerPrs.erase v, prs := r.prs.insert v p }) ?_ ?_
    · unfold setProgress
      rw [if_pos Bool.false_ne_true]
      exact Ensures.ok ⟨_, rfl⟩
    · rintro _ ⟨p, rfl⟩
      exact hadd p
  | some p =>
    refine Ensures.ite (fun h => absurd h.1 Bool.false_ne_true) fun _ => ?_
    refine Ensures.ite (fun _ => Ensures.pure ⟨r.prs, _, rfl, fun y => ?_, hl⟩) fun _ => hadd _
    -- The node is a voter already.
    have hv : v ∈ r.prs := by
      rw [getProgress, AList.lookup_eq_none.mpr (hl v), Option.or_none] at hp
      exact AList.lookup_isSome.mp (by rw [hp]; rfl)
    constructor
    · exact Or.inl
    · rintro (hy | rfl)
      · exact hy
      · exact hv

/-- Without learners, a loop of `add_node` adds the voters. -/
theorem addNodes_spec (peers : List (ℕ × Bytes)) {r : Raft} (hl : ∀ y, y ∉ r.learnerPrs)
    (hn : r.isLearner = false) :
    Ensures (peers.foldlM (fun r peer => r.addNode peer.1) r) fun r' => ∃ prs lprs,
      r' = { r with prs := prs, learnerPrs := lprs } ∧
        ∀ y, y ∈ prs ↔ y ∈ r.prs ∨ y ∈ peers.map Prod.fst := by
  induction peers generalizing r with
  | nil => exact Ensures.pure ⟨r.prs, r.learnerPrs, rfl, fun y => by simp⟩
  | cons p ps ih =>
    rw [List.foldlM_cons]
    refine Ensures.bind (addNode_spec hl hn p.1) ?_
    rintro _ ⟨prs, lprs, rfl, hmem, hl'⟩
    refine (ih (r := { r with prs := prs, learnerPrs := lprs }) hl' hn).mono ?_
    rintro _ ⟨prs', lprs', rfl, hmem'⟩
    refine ⟨prs', lprs', rfl, fun y => ?_⟩
    rw [hmem', hmem, List.map_cons, List.mem_cons, or_assoc]

end Raft

/-! ## The first log -/

/-- An empty log is uncompacted. -/
theorem RaftLog.new_uncompacted (k : ℕ) : (RaftLog.new .empty k).Uncompacted :=
  ⟨rfl, rfl, rfl, Nat.le_refl _, Nat.le_refl _, fun _ => rfl, fun i e h => by
    simp [toList, RaftLog.new, MemoryStorage.empty] at h⟩

namespace Setup

variable (S : Setup)

/-- The term that the nodes start in. -/
def startTerm : ℕ :=
  match S.bootstrap with
  | .config _ => 0
  | .entries _ _ => 1

/-- The log that the nodes start with. -/
def startLog : List Entry :=
  match S.bootstrap with
  | .config _ => []
  | .entries serialize context =>
    RawNode.bootstrapEntries serialize 0 (S.voters.map fun v => (v, context v))

/-- What the nodes of a cluster have in common. -/
def group (preVote : Bool) : Group where
  voters := S.voters.toFinset
  preVote := preVote
  startTerm := S.startTerm
  startLog := S.startLog
  startLog_term := by
    unfold startLog startTerm
    cases S.bootstrap with
    | config learners => exact fun e he => absurd he List.not_mem_nil
    | entries serialize context => exact (RawNode.bootstrapEntries_spec serialize 0 _).2.1
  startTerm_pos := by
    unfold startLog startTerm
    cases S.bootstrap with
    | config learners => exact fun h => absurd rfl h
    | entries serialize context => exact fun _ => Nat.one_pos

/-- What a node that has just started is. -/
structure Booted (i : ℕ) (r : Raft) : Prop extends
    r.Started i (S.config i).preVote (· ∈ S.voters.toFinset) where
  /-- The identity is not the one that stands for no node. -/
  id_ne : i ≠ 0
  /-- The term is the first one. -/
  term : r.term = S.startTerm
  /-- Nothing is compacted. -/
  uncompacted : r.raftLog.Uncompacted
  /-- The log is the first one. -/
  log : r.raftLog.toList = S.startLog
  /-- The whole log is committed. -/
  committed : r.raftLog.committed = S.startLog.length
  /-- A node that is no learner is a voter. -/
  voter : r.isLearner = false → i ∈ S.voters.toFinset

/-- A node whose members are configured starts with an empty log. -/
theorem restartNode_spec {ls : List ℕ} (hb : S.bootstrap = .config ls) {i : ℕ}
    (hi : i ∈ S.members) {c : Config} (hc : (S.nodeConfig i).validate = (.ok, c)) :
    Ensures (RawNode.restartNode c) fun n => S.Booted i n.raft := by
  obtain ⟨hid, a, b, rfl⟩ := Config.validate_spec hc
  refine Ensures.bind (Raft.new_spec rfl rfl) ?_
  rintro r ⟨hr, hterm, hlog, hlearner, -⟩
  refine Ensures.pure ?_
  unfold nodeConfig at hr hid hlearner
  unfold learners at hlearner
  rw [hb] at hr hlearner
  exact {
    id := hr.id
    preVote := hr.preVote
    voters := fun y => (hr.voters y).trans List.mem_toFinset.symm
    state := hr.state
    vote := hr.vote
    msgs := hr.msgs
    id_ne := hid
    term := hterm.trans (by rw [startTerm, hb])
    uncompacted := hlog ▸ RaftLog.new_uncompacted _
    log := by
      rw [RawNode.ofRaft, hlog, startLog, hb]
      rfl
    committed := by
      rw [RawNode.ofRaft, hlog, startLog, hb]
      rfl
    voter := fun hl => by
      have hnot : i ∉ ls := of_decide_eq_false (hlearner.symm.trans hl)
      rw [members, Finset.mem_union, Setup.learners, hb] at hi
      exact hi.resolve_right fun h => hnot (List.mem_toFinset.mp h) }

/-- A node whose members are added by entries starts with these, committed. -/
theorem startNode_spec {serialize : ConfChange → Bytes} {context : ℕ → Bytes}
    (hb : S.bootstrap = .entries serialize context) {i : ℕ} (hi : i ∈ S.members) {c : Config}
    (hc : (S.nodeConfig i).validate = (.ok, c)) :
    Ensures (RawNode.startNode serialize c (S.voters.map fun v => (v, context v)))
      fun n => S.Booted i n.raft := by
  obtain ⟨hid, a, b, rfl⟩ := Config.validate_spec hc
  refine Ensures.bind (Raft.new_spec rfl rfl) ?_
  rintro r ⟨hr, -, hlog, hlearner, hlprs⟩
  unfold nodeConfig at hr hid hlearner hlprs
  unfold learners at hlearner hlprs
  rw [hb] at hr hlearner hlprs
  rw [if_pos (by rfl)]
  obtain ⟨hidx, -, hlen⟩ :=
    RawNode.bootstrapEntries_spec serialize 0 (S.voters.map fun v => (v, context v))
  have hstart := Raft.becomeFollower_started r 1 0 hr.vote hr.msgs
  have hflog : (r.becomeFollower 1 0).raftLog = RaftLog.new .empty b :=
    (Raft.reset_raftLog r 1).trans hlog
  have hflearner : (r.becomeFollower 1 0).isLearner = false :=
    (Raft.reset_isLearner r 1).trans hlearner
  have hflprs : ∀ y, y ∉ (r.becomeFollower 1 0).learnerPrs := fun y =>
    (Raft.mem_reset_learnerPrs r 1 y).not.mpr (hlprs rfl y)
  have hfprs : ∀ y, y ∉ (r.becomeFollower 1 0).prs := fun y hy =>
    List.not_mem_nil ((hr.voters y).mp ((Raft.mem_reset_prs r 1 y).mp hy))
  have hfterm : (r.becomeFollower 1 0).term = 1 := Raft.reset_term r 1
  generalize r.becomeFollower 1 0 = f at hstart hflog hflearner hflprs hfprs hfterm ⊢
  have happend :=
    (RaftLog.append_end_spec (RaftLog.new_uncompacted b) hidx (Nat.zero_le _)).ensures
  rw [← hflog] at happend
  refine Ensures.bind happend ?_
  rintro l ⟨hl, hlist, -⟩
  refine Ensures.bind (Raft.addNodes_spec _ hflprs hflearner) ?_
  rintro _ ⟨prs, lprs, rfl, hmem⟩
  exact Ensures.pure {
    id := hstart.id.trans hr.id
    preVote := hstart.preVote.trans hr.preVote
    voters := fun y => by
      rw [RawNode.ofRaft, hmem, List.map_map, List.mem_toFinset]
      simp [hfprs y]
    state := hstart.state
    vote := hstart.vote
    msgs := hstart.msgs
    id_ne := hid
    term := hfterm.trans (by rw [startTerm, hb])
    uncompacted := hl.committed _
    log := by
      rw [startLog, hb]
      refine hlist.trans ?_
      rw [hflog]
      rfl
    committed := by
      rw [startLog, hb]
      rfl
    voter := fun _ => by
      rw [members, Finset.mem_union, Setup.learners, hb] at hi
      exact hi.resolve_right fun h => List.not_mem_nil (List.mem_toFinset.mp h) }

/-- The start of a node leaves what it should. -/
theorem boot_spec {i : ℕ} (hi : i ∈ S.members) : Ensures (S.boot i) fun n => S.Booted i n.raft := by
  unfold boot
  split
  · next c hc =>
    split
    · next ls hb => exact S.restartNode_spec hb hi hc
    · next serialize context hb => exact S.startNode_spec hb hi hc
  · exact Ensures.error

end Setup

/-! ## The start of the cluster -/

/-- A node that has just started is related to the start of the protocol. -/
theorem Setup.Booted.nodeOK {S : Setup} {preVote : Bool} {i : ℕ} {r : Raft} (h : S.Booted i r)
    (hpre : (S.config i).preVote = true → preVote = true) :
    NodeOK (S.group preVote) ((S.group preVote).setting.start S.startLog.length) r where
  id_ne := by
    rw [h.id]
    exact h.id_ne
  voters := h.voters
  voter hl := by
    rw [h.id]
    exact h.voter hl
  preVote hp := hpre (h.preVote.symm.trans hp)
  uncompacted := h.uncompacted
  term := h.term.symm
  role := by
    rw [h.state]
    rfl
  log := h.log.symm
  commit := h.committed.symm
  vote := by
    rw [h.vote]
    rfl
  votes hc := by
    rw [h.state] at hc
    cases hc
  progress hl := by
    rw [h.state] at hl
    cases hl
  msgs m hm := by
    rw [h.msgs] at hm
    cases hm

/-- The voters of a cluster whose first log is not empty are a quorum. -/
theorem Setup.exists_quorum (S : Setup) (preVote : Bool) (h : (S.group preVote).setting.startLog ≠ []) :
    ∃ Q, (S.group preVote).setting.IsQuorum Q := by
  refine ⟨S.voters.toFinset, majority_isQuorum (Finset.Subset.refl _) ?_ fun x hx => hx⟩
  have hne : S.voters ≠ [] := by
    intro hnil
    refine h ?_
    show S.startLog = []
    unfold startLog
    split
    · rfl
    · rw [hnil]
      rfl
  have hpos : 0 < S.voters.toFinset.card := by
    rw [Finset.card_pos, List.toFinset_nonempty_iff]
    exact hne
  show S.voters.toFinset.card < 2 * S.voters.toFinset.card
  omega

/-- A cluster that has just started is related to the start of the protocol. -/
theorem ClusterSim.fresh {S : Setup} {c : Cluster} (h : c.Fresh S) {preVote : Bool}
    (hpre : ∀ i ∈ S.members, (S.config i).preVote = true → preVote = true) :
    ClusterSim S (S.group preVote) ((S.group preVote).setting.start S.startLog.length) c where
  inv := Inv.init (Setting.start_initial _ (Nat.le_refl _) (S.exists_quorum preVote))
  indexed u L hL := by
    simp only [Setting.start] at hL
    split_ifs at hL
    cases hL
    show IndexedFrom 1 S.startLog
    unfold Setup.startLog
    split
    · exact fun i e he => absurd he (by simp)
    · exact (RawNode.bootstrapEntries_spec _ 0 _).1
  id i hi := (S.boot_spec hi _ (h.nodes i hi)).id
  node i hi := (S.boot_spec hi _ (h.nodes i hi)).nodeOK (hpre i hi)
  net m hm := by
    rw [h.net] at hm
    cases hm

end RaftCpp
