import RaftCpp.Library.Consensus.Safety
import RaftCpp.Raft.Step
import RaftCpp.Replication.LogView

/-!
# The simulation of the protocol by the nodes

A node's state and the messages it sent are related to a state of the abstract protocol: `NodeOK` for
the node, and `MessageOK` for a message, which says what the history must contain for the message to be
sent. Every handler of a node is then simulated by steps of that node in the protocol.
-/

namespace RaftCpp

open Consensus Outcome

/-- What the nodes of a cluster have in common. -/
structure Group where
  /-- The voters. -/
  voters : Finset ℕ
  /-- Whether a node may poll before an election. -/
  preVote : Bool
  /-- The term in which the nodes start. -/
  startTerm : ℕ
  /-- The log that the nodes start with. -/
  startLog : List Entry
  /-- The entries of the first log are of the first term. -/
  startLog_term : ∀ e ∈ startLog, e.term = startTerm
  /-- Entries have a term. -/
  startTerm_pos : startLog ≠ [] → 0 < startTerm

/-- The setting of the abstract protocol: the quorums are the majorities of the voters. -/
def Group.setting (G : Group) : Setting ℕ Entry :=
  { majority G.voters with
    termOf := Entry.term
    startTerm := G.startTerm
    startLog := G.startLog
    startLog_term := G.startLog_term
    startTerm_pos := G.startTerm_pos }

/-- The state of the abstract protocol. -/
abbrev History := State ℕ Entry

/-- The abstract role of a node: a node that polls is still a follower. -/
def RaftState.role : RaftState → Role
  | .follower | .preCandidate => .follower
  | .candidate => .candidate
  | .leader => .leader

/-- What the history contains when a message was sent. -/
def MessageOK (G : Group) (s : History) (m : Message) : Prop :=
  match m.type with
  | .msgVote => m.term ≠ 0 ∧ m.fromId ≠ 0 ∧ s.grant m.fromId m.term = some m.fromId ∧
      m.index = (s.grantLog m.fromId m.term).length ∧
      m.logTerm = lastTerm Entry.term (s.grantLog m.fromId m.term)
  | .msgVoteResp => m.term ≠ 0 ∧
      (m.reject = false → m.fromId ∈ G.voters ∧ s.grant m.fromId m.term = some m.toId)
  | .msgPreVote | .msgPreVoteResp => m.term ≠ 0 ∧ G.preVote = true
  | .msgApp => m.term ≠ 0 ∧ ∃ L, s.leaderLog m.term = some L ∧ m.index ≤ L.length ∧
      m.logTerm = termAt Entry.term L m.index ∧ m.entries <+: L.drop m.index ∧
      m.commit ≤ L.length ∧ Committed G.setting s m.term (L.take m.commit)
  | .msgAppResp => m.term ≠ 0 ∧ (m.reject = false → m.index ≤ s.ack m.fromId m.term)
  | .msgHeartbeat => m.term ≠ 0 ∧ m.commit ≤ s.ack m.toId m.term ∧
      ∃ L, s.leaderLog m.term = some L ∧ m.commit ≤ L.length ∧
        Committed G.setting s m.term (L.take m.commit)
  | .msgSnap => False
  | _ => True

/-- What a leader's view of a peer says about the peer. -/
structure ProgressOK (s : History) (r : Raft) (y : ℕ) (p : Progress) : Prop where
  /-- The next entry has an index. -/
  next_pos : 1 ≤ p.next
  /-- The next entry at most follows the log. -/
  next_le : p.next ≤ r.raftLog.toList.length + 1
  /-- The peer acknowledged what it is known to hold. -/
  matched_le : p.matched ≤ s.ack y r.term
  /-- No snapshot is on its way. -/
  no_snapshot : p.state ≠ .snapshot

/-- What a node's state says about the history. -/
structure NodeOK (G : Group) (s : History) (r : Raft) : Prop where
  /-- The identity is not the one that stands for no node. -/
  id_ne : r.id ≠ 0
  /-- The node tracks the voters. -/
  voters : ∀ y, y ∈ r.prs ↔ y ∈ G.voters
  /-- A node that is no learner is a voter. -/
  voter : r.isLearner = false → r.id ∈ G.voters
  /-- The node polls only where that is allowed. -/
  preVote : r.preVote = true → G.preVote = true
  /-- Nothing is compacted. -/
  uncompacted : r.raftLog.Uncompacted
  /-- The term. -/
  term : s.term r.id = r.term
  /-- The role. -/
  role : s.role r.id = r.state.role
  /-- The log. -/
  log : s.log r.id = r.raftLog.toList
  /-- The commit index. -/
  commit : s.commit r.id = r.raftLog.committed
  /-- The vote. -/
  vote : s.grant r.id r.term = if r.vote = 0 then none else some r.vote
  /-- The votes for a candidate were granted. -/
  votes : r.state = .candidate → ∀ y, r.votes.lookup y = some true →
    (y = r.id ∨ y ∈ G.voters) ∧ s.grant y r.term = some r.id
  /-- A leader knows no more of its peers than they acknowledged. -/
  progress : r.state = .leader → ∀ y p, r.getProgress y = some p → ProgressOK s r y p
  /-- The messages to send. -/
  msgs : ∀ m ∈ r.msgs, MessageOK G s m

/-- The relation between a node and the history. -/
structure Sim (G : Group) (s : History) (r : Raft) : Prop where
  /-- The invariant of the protocol. -/
  inv : Inv G.setting s
  /-- The entries of the leaders' logs carry their indices. -/
  indexed : ∀ u L, s.leaderLog u = some L → IndexedFrom 1 L
  /-- The node. -/
  node : NodeOK G s r

variable {G : Group} {s s' : History} {r r' : Raft}

/-! ## What later steps keep -/

/-- What a message says stays true. -/
theorem MessageOK.mono {m : Message} (h : MessageOK G s m) (hle : Le s s') : MessageOK G s' m := by
  unfold MessageOK at h ⊢
  split
  · obtain ⟨ht, hid, hgrant, hi, hterm⟩ := by simpa only [*] using h
    rw [hle.grantLog _ _ _ hgrant]
    exact ⟨ht, hid, hle.grant _ _ _ hgrant, hi, hterm⟩
  · obtain ⟨ht, hgrant⟩ := by simpa only [*] using h
    exact ⟨ht, fun hr => ⟨(hgrant hr).1, hle.grant _ _ _ (hgrant hr).2⟩⟩
  · simpa only [*] using h
  · simpa only [*] using h
  · obtain ⟨ht, L, hL, hi, hterm, hes, hc, hcom⟩ := by simpa only [*] using h
    obtain ⟨L', hL', hp⟩ := hle.leaderLog _ _ hL
    refine ⟨ht, L', hL', hi.trans hp.length_le, ?_, ?_, hc.trans hp.length_le, ?_⟩
    · rw [← termAt_of_isPrefix hp hi]
      exact hterm
    · obtain ⟨t, rfl⟩ := hp
      rw [List.drop_append_of_le_length hi]
      exact hes.trans (List.prefix_append _ _)
    · rw [take_eq_of_isPrefix hp hc]
      exact hcom.mono hle (Nat.le_refl _)
  · obtain ⟨ht, hack⟩ := by simpa only [*] using h
    exact ⟨ht, fun hr => (hack hr).trans (hle.ack _ _)⟩
  · obtain ⟨ht, hack, L, hL, hc, hcom⟩ := by simpa only [*] using h
    obtain ⟨L', hL', hp⟩ := hle.leaderLog _ _ hL
    refine ⟨ht, hack.trans (hle.ack _ _), L', hL', hc.trans hp.length_le, ?_⟩
    rw [take_eq_of_isPrefix hp hc]
    exact hcom.mono hle (Nat.le_refl _)
  · simp only [*] at h
  · trivial

/-- What a leader knows of a peer stays true. -/
theorem ProgressOK.mono {y : ℕ} {p : Progress} (h : ProgressOK s r y p) (hle : Le s s') :
    ProgressOK s' r y p :=
  ⟨h.next_pos, h.next_le, h.matched_le.trans (hle.ack _ _), h.no_snapshot⟩

/-- Steps of other nodes keep what a node's state says. -/
theorem NodeOK.mono (h : NodeOK G s r) (hle : Le s s') (hsame : SameAt r.id s s') :
    NodeOK G s' r where
  id_ne := h.id_ne
  voters := h.voters
  voter := h.voter
  preVote := h.preVote
  uncompacted := h.uncompacted
  term := hsame.term.trans h.term
  role := hsame.role.trans h.role
  log := hsame.log.trans h.log
  commit := hsame.commit.trans h.commit
  vote := by
    rw [hsame.grant]
    exact h.vote
  votes hc y hy := ⟨(h.votes hc y hy).1, hle.grant _ _ _ (h.votes hc y hy).2⟩
  progress hl y p hp := (h.progress hl y p hp).mono hle
  msgs m hm := (h.msgs m hm).mono hle

/-- The part of a node's state that safety is about. -/
def Raft.core (r : Raft) : Raft :=
  { id := r.id, term := r.term, vote := r.vote, raftLog := r.raftLog, prs := r.prs
    learnerPrs := r.learnerPrs, state := r.state, isLearner := r.isLearner, votes := r.votes
    msgs := r.msgs, preVote := r.preVote, maxMsgSize := 0, maxUncommittedSize := 0
    maxInflight := 0, readOnly := { option := .safe }, checkQuorum := false, heartbeatTimeout := 0
    electionTimeout := 0, disableProposalForwarding := false, randomDevice := { draws := fun _ => 0 } }

/-- The relation only depends on that part. -/
theorem nodeOK_core : NodeOK G s r.core ↔ NodeOK G s r :=
  ⟨fun h => ⟨h.id_ne, h.voters, h.voter, h.preVote, h.uncompacted, h.term, h.role, h.log, h.commit,
      h.vote, h.votes, fun hl y p hp => ⟨(h.progress hl y p hp).1, (h.progress hl y p hp).2,
        (h.progress hl y p hp).3, (h.progress hl y p hp).4⟩, h.msgs⟩,
    fun h => ⟨h.id_ne, h.voters, h.voter, h.preVote, h.uncompacted, h.term, h.role, h.log, h.commit,
      h.vote, h.votes, fun hl y p hp => ⟨(h.progress hl y p hp).1, (h.progress hl y p hp).2,
        (h.progress hl y p hp).3, (h.progress hl y p hp).4⟩, h.msgs⟩⟩

/-- A change outside of that part keeps the relation. -/
theorem Sim.congr (h : Sim G s r) (hcore : r'.core = r.core) : Sim G s r' where
  inv := h.inv
  indexed := h.indexed
  node := nodeOK_core.mp (hcore ▸ nodeOK_core.mpr h.node)

/-! ## Simulated computations -/

/-- A node's next state is reached by steps of the node in the protocol. -/
def Refines (G : Group) (s : History) (i : ℕ) (r' : Raft) : Prop :=
  r'.id = i ∧ ∃ s', Moves G.setting i s s' ∧ Sim G s' r'

/-- A node that is related to the history is reached without a step. -/
theorem Sim.refines (h : Sim G s r) : Refines G s r.id r :=
  ⟨rfl, s, Relation.ReflTransGen.refl, h⟩

/-- A node that is related to the history is reached without a step. -/
theorem Sim.refines_of_id (h : Sim G s r) {i : ℕ} (hid : r.id = i) : Refines G s i r :=
  hid ▸ h.refines

/-- Steps before the ones that a computation takes. -/
theorem Refines.after {i : ℕ} (h : Refines G s' i r') (hm : Moves G.setting i s s') :
    Refines G s i r' := by
  obtain ⟨hid, s'', hm', hsim⟩ := h
  exact ⟨hid, s'', hm.trans hm', hsim⟩

/-- Steps before the ones that a computation takes. -/
theorem Refines.of_moves {i : ℕ} {x : Result Raft} (hm : Moves G.setting i s s')
    (hx : LogSafe x (Refines G s' i)) : LogSafe x (Refines G s i) :=
  hx.mono fun _ hr => hr.after hm

/-- Sequencing: the second computation starts where the first one ended. -/
theorem Refines.bind {α : Type} {i : ℕ} {x : Result α} {f : α → Result Raft} {g : α → Raft}
    {P : α → Prop} (hx : LogSafe x fun a => Refines G s i (g a) ∧ P a)
    (hf : ∀ a s', Sim G s' (g a) → (g a).id = i → P a → LogSafe (f a) (Refines G s' i)) :
    LogSafe (x >>= f) (Refines G s i) := by
  refine Secures.bind hx fun a ha => ?_
  obtain ⟨⟨hid, s', hm, hsim⟩, hP⟩ := ha
  exact (hf a s' hsim hid hP).mono fun r' hr' => hr'.after hm

end RaftCpp
