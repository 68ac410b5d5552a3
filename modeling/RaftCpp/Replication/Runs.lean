import RaftCpp.Replication.Cluster
import RaftCpp.Replication.Stepping

/-!
# Runs of a cluster

Every event of a cluster is simulated by steps of one node in the protocol, and so is every run, as long
as no candidate counts the answer to a poll as a vote.
-/

namespace RaftCpp

open Consensus Outcome

variable {S : Setup} {G : Group} {s s' : History} {c c' : Cluster}

/-- An event that makes a candidate count the answer to a poll as a vote. -/
def Event.Stray (c : Cluster) : Event → Prop
  | .deliver m => (c.nodes m.toId).raft.strayPreVote m
  | _ => False

/-- The events that do not. -/
def Event.Clean (c : Cluster) (e : Event) : Prop := ¬ e.Stray c

instance (c : Cluster) (e : Event) : Decidable (e.Stray c) :=
  match e with
  | .tick _ | .input _ _ | .persist _ => .isFalse id
  | .deliver m => inferInstanceAs (Decidable ((c.nodes m.toId).raft.strayPreVote m))

instance (c : Cluster) (e : Event) : Decidable (e.Clean c) := inferInstanceAs (Decidable (¬ e.Stray c))

/-- Every event. -/
def Event.Any (_ : Cluster) (_ : Event) : Prop := True

instance (c : Cluster) (e : Event) : Decidable (e.Any c) := inferInstanceAs (Decidable True)

/-- The relation between a cluster and the history. -/
structure ClusterSim (S : Setup) (G : Group) (s : History) (c : Cluster) : Prop where
  /-- The invariant of the protocol. -/
  inv : Inv G.setting s
  /-- The entries of the leaders' logs carry their indices. -/
  indexed : ∀ u L, s.leaderLog u = some L → IndexedFrom 1 L
  /-- The nodes carry their identities. -/
  id : ∀ i ∈ S.members, (c.nodes i).raft.id = i
  /-- The nodes. -/
  node : ∀ i ∈ S.members, NodeOK G s (c.nodes i).raft
  /-- The messages sent so far. -/
  net : ∀ m ∈ c.net, MessageOK G s m

/-- A node of a related cluster is related. -/
theorem ClusterSim.sim (h : ClusterSim S G s c) {i : ℕ} (hi : i ∈ S.members) :
    Sim G s (c.nodes i).raft := ⟨h.inv, h.indexed, h.node i hi⟩

/-- Persisting keeps the relation: the log stands for the same list. -/
theorem Sim.pullReadyEvents {n : RawNode} (h : Sim G s n.raft) :
    LogSafe n.pullReadyEvents fun n' => Refines G s n.raft.id n'.raft := by
  have hn := h.node
  unfold RawNode.pullReadyEvents
  refine Secures.ite (fun _ => Secures.pure h.refines) fun _ => ?_
  -- What is handed out is the unstable part, and the messages leave the node.
  refine Secures.bind (P := fun p => p.1.entries = n.raft.raftLog.unstable.entries ∧
      p.1.snapshot.isEmpty = true ∧ p.2.raft.raftLog = n.raft.raftLog ∧ p.2.raft.id = n.raft.id ∧
      ∀ l, Sim G s { n.raft with raftLog := l } → Sim G s { p.2.raft with raftLog := l }) ?_ ?_
  · unfold RawNode.ready Ready.new
    refine Secures.bind (P := fun rd => rd.entries = n.raft.raftLog.unstable.entries ∧
        rd.snapshot.isEmpty = true) ?_ ?_
    · refine Secures.bind (RaftLog.nextEntries_safe hn.uncompacted) fun es _ => Secures.pure ?_
      refine ⟨rfl, ?_⟩
      simp [hn.uncompacted.no_snapshot, Snapshot.isEmpty]
    · rintro rd ⟨hes, hsnap⟩
      obtain ⟨k, hred⟩ := Raft.reduceUncommittedSize_eq { n.raft with msgs := [] } rd.committedEntries
      refine Secures.pure ⟨hes, hsnap, ?_, ?_, fun l hl => ?_⟩
      · simp only [hred]
      · simp only [hred]
      · have hn' := hl.node
        simp only [hred]
        refine ⟨hl.inv, hl.indexed, ?_⟩
        refine ⟨hn'.id_ne, hn'.voters, hn'.voter, hn'.preVote, hn'.uncompacted, hn'.term, hn'.role,
          hn'.log, hn'.commit, hn'.vote, hn'.votes, fun hst y p hp => ?_,
          fun m hm => absurd hm List.not_mem_nil⟩
        obtain ⟨h1, h2, h3, h4⟩ := hn'.progress hst y p hp
        exact ⟨h1, h2, h3, h4⟩
  rintro ⟨rd, n₁⟩ ⟨hes, hsnap, hlog, hid, hsim⟩
  dsimp only at hes hsnap hlog hid hsim ⊢
  -- A log that stands for the same list, with the same commit index, is as good.
  have hsame : ∀ l : RaftLog, l.Uncompacted → l.toList = n.raft.raftLog.toList →
      l.committed = n.raft.raftLog.committed → Sim G s { n.raft with raftLog := l } := by
    intro l hl hlist hcom
    refine ⟨h.inv, h.indexed, ?_⟩
    refine ⟨hn.id_ne, hn.voters, hn.voter, hn.preVote, hl, hn.term, hn.role, hn.log.trans hlist.symm,
      hn.commit.trans hcom.symm, hn.vote, hn.votes, fun hst y p hp => ?_, hn.msgs⟩
    obtain ⟨h1, h2, h3, h4⟩ := hn.progress hst y p hp
    refine ⟨h1, ?_, h3, h4⟩
    rw [show ({ n.raft with raftLog := l } : Raft).raftLog.toList = n.raft.raftLog.toList from hlist]
    exact h2
  refine Secures.ite (fun _ => Secures.pure ⟨hid, s, Relation.ReflTransGen.refl, ?_⟩) fun _ => ?_
  · have := hsim n.raft.raftLog h
    rwa [← hlog] at this
  rw [hes, hlog, hsnap, if_pos rfl]
  refine Secures.bind (RaftLog.append_unstable_spec hn.uncompacted) fun st hst => Secures.pure ?_
  obtain ⟨k, hk⟩ := RaftLog.appliedTo_eq { n.raft.raftLog with storage := st } rd.appliedCursor
  have hadv : ∀ l : RaftLog, Sim G s { n.raft with raftLog := l } → ∀ rs,
      Refines G s n.raft.id { n₁.raft with raftLog := l, readStates := rs } := fun l hl rs => by
    refine ⟨hid, s, Relation.ReflTransGen.refl, (hsim l hl).congr ?_⟩
    rfl
  unfold RawNode.advance
  dsimp only
  rw [hsnap, hes, hk, if_neg (not_not.mpr (rfl : true = true))]
  refine hadv _ ?_ _
  rcases hst with ⟨hnil, rfl⟩ | ⟨hne, hst⟩
  · rw [hnil]
    exact hsame _ (hn.uncompacted.withApplied k) rfl rfl
  · rw [List.getLast?_eq_some_getLast hne]
    obtain ⟨hun, hlist⟩ := RaftLog.persist_spec hn.uncompacted hst
      (List.getLast?_eq_some_getLast hne) k
    exact hsame _ hun hlist rfl

/-- The application steps in messages that promise nothing about the history. -/
theorem MessageOK.of_input {m : Message} (hm : isInputType m.type = true) : MessageOK G s m := by
  unfold MessageOK
  unfold isInputType at hm
  split <;> simp_all

/-- A message that the application steps in is no answer, and no heartbeat. -/
theorem isInputType_ne {t : MessageType} (h : isInputType t = true) :
    t ≠ .msgVoteResp ∧ t ≠ .msgHeartbeat ∧ t ≠ .msgPreVoteResp := by
  refine ⟨?_, ?_, ?_⟩ <;>
    · rintro rfl
      cases h

/-- An event at a node, up to the draining of its messages, is simulated by steps of the node. -/
theorem ClusterSim.run (h : ClusterSim S G s c) {e : Event} (hen : e.Enabled S c)
    (hclean : e.Clean c) :
    LogSafe (e.run (c.nodes e.node)) fun n => Refines G s e.node n.raft := by
  have hsim := h.sim hen.1
  have hid := h.id _ hen.1
  have hmsg : ∀ m, LogSafe ((c.nodes e.node).raft.step m)
      (fun p => Refines G s (c.nodes e.node).raft.id p.2) →
      LogSafe ((Event.deliver m).run (c.nodes e.node))
        fun n => Refines G s (c.nodes e.node).raft.id n.raft := fun m hm => by
    refine Secures.bind (P := fun p => Refines G s (c.nodes e.node).raft.id p.2.raft) ?_ ?_
    · refine Secures.bind hm ?_
      rintro ⟨status, r⟩ hr
      exact Secures.pure hr
    · rintro ⟨status, n⟩ hn
      exact Secures.pure hn
  have hrun : LogSafe (e.run (c.nodes e.node))
      fun n => Refines G s (c.nodes e.node).raft.id n.raft := by
    cases e with
    | tick i => exact Secures.bind hsim.tick fun r hr => Secures.pure hr
    | input i m =>
      exact hmsg m (hsim.stepLocal (.of_input hen.2.2) (isInputType_ne hen.2.2))
    | deliver m => exact hmsg m (hsim.stepRaft (h.net m hen.2) (fun _ => hid.symm) hclean)
    | persist i => exact hsim.pullReadyEvents
  rwa [hid] at hrun

/-- A step of the cluster is simulated. -/
theorem ClusterSim.step (h : ClusterSim S G s c) (hstep : Cluster.Step S Event.Clean c c') :
    ∃ s', Le s s' ∧ ClusterSim S G s' c' := by
  obtain ⟨e, hen, hclean, hexec⟩ := hstep
  unfold Cluster.exec at hexec
  rw [bind_eq_ok] at hexec
  obtain ⟨n, hrun, hc'⟩ := hexec
  cases hc'
  obtain ⟨hid, s', hmoves, hsim⟩ := (h.run hen hclean).ensures n hrun
  obtain ⟨hinv, hle⟩ := hmoves.inv h.inv
  refine ⟨s', hle, ⟨hinv, hsim.indexed, fun i hi => ?_, fun i hi => ?_, fun m hm => ?_⟩⟩
  · simp only [Function.update_apply]
    split_ifs with hie
    · rw [hie]
      exact hid
    · exact h.id i hi
  · simp only [Function.update_apply]
    split_ifs with hie
    · have hn := hsim.node
      refine ⟨hn.id_ne, hn.voters, hn.voter, hn.preVote, hn.uncompacted, hn.term, hn.role, hn.log,
        hn.commit, hn.vote, hn.votes, fun hst y p hp => ?_, fun m hm => absurd hm List.not_mem_nil⟩
      obtain ⟨h1, h2, h3, h4⟩ := hn.progress hst y p hp
      exact ⟨h1, h2, h3, h4⟩
    · refine (h.node i hi).mono hle (hmoves.sameAt ?_)
      rw [h.id i hi]
      exact hie
  · rcases List.mem_append.mp hm with hm | hm
    · exact (h.net m hm).mono hle
    · exact hsim.node.msgs m hm

/-- A run of the cluster is simulated. -/
theorem ClusterSim.steps (h : ClusterSim S G s c) (hrun : Cluster.Run S Event.Clean c c') :
    ∃ s', Le s s' ∧ ClusterSim S G s' c' := by
  induction hrun with
  | refl => exact ⟨s, Le.refl s, h⟩
  | tail _ hstep ih =>
    obtain ⟨s₁, hle, h₁⟩ := ih
    obtain ⟨s₂, hle', h₂⟩ := h₁.step hstep
    exact ⟨s₂, hle.trans hle', h₂⟩

/-! ## Without polls -/

/-- Where polls are not allowed, no event is stray. -/
theorem ClusterSim.clean (h : ClusterSim S G s c) (hpre : G.preVote = false) {e : Event}
    (hen : e.Enabled S c) : e.Clean c := by
  intro hstray
  cases e with
  | deliver m =>
    have hm := h.net m hen.2
    unfold MessageOK at hm
    simp only [hstray.1, hpre] at hm
    exact absurd hm.2 Bool.false_ne_true
  | _ => exact hstray

/-- Where polls are not allowed, every run is simulated. -/
theorem ClusterSim.steps_any (h : ClusterSim S G s c) (hpre : G.preVote = false)
    (hrun : Cluster.Run S Event.Any c c') : ∃ s', Le s s' ∧ ClusterSim S G s' c' := by
  induction hrun with
  | refl => exact ⟨s, Le.refl s, h⟩
  | tail _ hstep ih =>
    obtain ⟨s₁, hle, h₁⟩ := ih
    obtain ⟨e, hen, -, hexec⟩ := hstep
    obtain ⟨s₂, hle', h₂⟩ := h₁.step ⟨e, hen, h₁.clean hpre hen, hexec⟩
    exact ⟨s₂, hle.trans hle', h₂⟩

end RaftCpp
