import RaftCpp.Raft.Host
import RaftCpp.Replication.Stepping

/-!
# What the application does to a node

The application takes what is ready, writes it to the storage, applies the changes of the membership, and lets
the node advance. None of this is a step of the protocol: the log stands for the same list, as long as the
changes add only nodes that are voters already.
-/

namespace RaftCpp

open Consensus Outcome

/-! ## The log -/

namespace RaftLog

variable {l : RaftLog} {s : MemoryStorage}

/-- Once the unstable entries are written to the storage, the log stands for the same list. -/
theorem Uncompacted.stored (h : l.Uncompacted) (hs : l.storage.append l.unstable.entries = .ok s) :
    ({ l with storage := s } : RaftLog).Uncompacted ∧
      ({ l with storage := s } : RaftLog).toList = l.toList ∧
      (l.unstable.entries ≠ [] → s.entries = s.entries.take l.unstable.offset ++ l.unstable.entries) := by
  obtain ⟨hnil, rfl⟩ | ⟨hne, hentries⟩ := (append_unstable_spec h).ensures s hs
  · exact ⟨h, rfl, fun hne => absurd hnil hne⟩
  have hpos := h.offset_pos
  have hle := h.offset_le
  have hlen : (l.storage.entries.take l.unstable.offset).length = l.unstable.offset := by
    rw [List.length_take, Nat.min_eq_left hle]
  have htake : s.entries.take l.unstable.offset = l.storage.entries.take l.unstable.offset := by
    rw [hentries]
    exact List.take_left' hlen
  have hlist : ({ l with storage := s } : RaftLog).toList = l.toList := by
    unfold toList
    rw [← List.drop_take, ← List.drop_take]
    rw [htake]
  obtain ⟨rest, hrest⟩ := storage_entries l.storage
  have hdummy : s.dummy = l.storage.dummy := by
    obtain ⟨off, hoff⟩ : ∃ off, l.unstable.offset = off + 1 := ⟨l.unstable.offset - 1, by omega⟩
    rw [hrest, hoff, List.take_succ_cons, List.cons_append] at hentries
    exact dummy_eq hentries
  refine ⟨⟨?_, ?_, h.no_snapshot, hpos, ?_, fun hnil => absurd hnil hne, ?_⟩, hlist, fun _ => ?_⟩
  · show s.dummy.index = 0
    rw [hdummy]
    exact h.dummy_index
  · show s.dummy.term = 0
    rw [hdummy]
    exact h.dummy_term
  · show l.unstable.offset ≤ s.entries.length
    rw [hentries, List.length_append, hlen]
    exact Nat.le_add_right _ _
  · rw [hlist]
    exact h.indexed
  · rw [htake]
    exact hentries

/-- Once the node advances past entries that are in the storage, the log stands for the same list. -/
theorem Uncompacted.advanced (h : l.Uncompacted)
    (hs : l.unstable.entries ≠ [] →
      l.storage.entries = l.storage.entries.take l.unstable.offset ++ l.unstable.entries) (applied : ℕ) :
    let l' := { l with applied := applied }
    let l'' := match l.unstable.entries.getLast? with
      | some e => l'.stableTo e.index e.term
      | none => l'
    l''.Uncompacted ∧ l''.toList = l.toList ∧ l''.committed = l.committed := by
  dsimp only
  cases he : l.unstable.entries.getLast? with
  | none => exact ⟨h.withApplied applied, rfl, rfl⟩
  | some e =>
    have hne : l.unstable.entries ≠ [] := by
      intro hnil
      rw [hnil] at he
      cases he
    obtain ⟨huncompacted, hlist⟩ := persist_spec h (hs hne) he applied
    exact ⟨huncompacted, hlist, rfl⟩

end RaftLog

/-! ## The node -/

section Node

variable {G : Group} {s : History} {r : Raft} {n n' : RawNode} {rd : Ready}

/-- A log that stands for the same list, with the same commit index, is as good. -/
theorem Sim.withLog (h : Sim G s r) {l : RaftLog} (hl : l.Uncompacted) (hlist : l.toList = r.raftLog.toList)
    (hcommitted : l.committed = r.raftLog.committed) : Sim G s { r with raftLog := l } := by
  have hn := h.node
  refine ⟨h.inv, h.indexed, hn.id_ne, hn.voters, hn.voter, hn.preVote, hl, hn.term, hn.role,
    hn.log.trans hlist.symm, hn.commit.trans hcommitted.symm, hn.vote, hn.votes, fun hst y p hp => ?_, hn.msgs⟩
  obtain ⟨hpos, hle, hmatched, hsnap⟩ := hn.progress hst y p hp
  refine ⟨hpos, ?_, hmatched, hsnap⟩
  rw [show ({ r with raftLog := l } : Raft).raftLog.toList = r.raftLog.toList from hlist]
  exact hle

/-- The messages are taken. -/
theorem Sim.withoutMsgs (h : Sim G s r) : Sim G s { r with msgs := [] } := by
  have hn := h.node
  refine ⟨h.inv, h.indexed, hn.id_ne, hn.voters, hn.voter, hn.preVote, hn.uncompacted, hn.term, hn.role,
    hn.log, hn.commit, hn.vote, hn.votes, fun hst y p hp => ?_, nofun⟩
  obtain ⟨hpos, hle, hmatched, hsnap⟩ := hn.progress hst y p hp
  exact ⟨hpos, hle, hmatched, hsnap⟩

/-- Taking what is ready is no step. -/
theorem Sim.ready (h : Sim G s n.raft) (hrd : n.ready = .ok (rd, n')) :
    Sim G s n'.raft ∧ n'.raft.raftLog = n.raft.raftLog ∧ n'.raft.id = n.raft.id ∧
      rd.snapshot.isEmpty = true := by
  obtain ⟨-, -, -, hsnap, -, size, rfl⟩ := RawNode.ready_eq hrd
  refine ⟨?_, rfl, rfl, ?_⟩
  · refine h.withoutMsgs.congr ?_
    rfl
  · rw [hsnap, h.node.uncompacted.no_snapshot]
    rfl

/-- Neither the flags of the progress nor those of the learners matter. -/
theorem Sim.withFlags (h : Sim G s r) {prs learnerPrs : AList fun _ : ℕ => Progress} {isLearner : Bool}
    (hmem : ∀ y, y ∈ prs ↔ y ∈ r.prs) (hlearner : isLearner = false → r.id ∈ G.voters)
    (hprogress : ∀ y q, (prs.lookup y).or (learnerPrs.lookup y) = some q → ∃ p, r.getProgress y = some p ∧
      q.matched = p.matched ∧ q.next = p.next ∧ q.state = p.state) :
    Sim G s { r with prs := prs, learnerPrs := learnerPrs, isLearner := isLearner } := by
  have hn := h.node
  refine ⟨h.inv, h.indexed, hn.id_ne, fun y => (hmem y).trans (hn.voters y), hlearner, hn.preVote,
    hn.uncompacted, hn.term, hn.role, hn.log, hn.commit, hn.vote, hn.votes, fun hst y q hq => ?_, hn.msgs⟩
  obtain ⟨p, hp, hmatched, hnext, hstate⟩ := hprogress y q hq
  obtain ⟨hpos, hle, hack, hsnap⟩ := hn.progress hst y p hp
  refine ⟨?_, ?_, ?_, ?_⟩
  · rw [hnext]
    exact hpos
  · rw [hnext]
    exact hle
  · rw [hmatched]
    exact hack
  · rw [hstate]
    exact hsnap

/-- Nor is adding a voter that the node has. -/
theorem Sim.addNode (h : Sim G s r) {v : ℕ} (hv : v ∈ G.voters) :
    Ensures (r.addNodeOrLearner v false) fun r' => Sim G s r' ∧ r'.raftLog = r.raftLog ∧ r'.id = r.id := by
  have hn := h.node
  have hmem := (hn.voters v).mpr hv
  obtain ⟨p, hp⟩ := Option.isSome_iff_exists.mp (AList.lookup_isSome.mpr hmem)
  have hget : r.getProgress v = some p := by
    unfold Raft.getProgress
    rw [hp]
    rfl
  unfold Raft.addNodeOrLearner
  rw [hget]
  refine Ensures.ite (fun hfalse => absurd hfalse.1 Bool.false_ne_true) fun _ => ?_
  refine Ensures.ite (fun _ => Ensures.pure ⟨h, rfl, rfl⟩) fun _ => ?_
  -- Flags of the node and of the progress are set.
  have hinserted : ∀ isLearner : Bool, (isLearner = false → r.id ∈ G.voters) →
      Ensures (Raft.peerProgress { r with
          learnerPrs := r.learnerPrs.erase v
          prs := r.prs.insert v { p with isLearner := false }
          isLearner := isLearner } v >>= fun pr =>
        pure (Raft.putProgress { r with
          learnerPrs := r.learnerPrs.erase v
          prs := r.prs.insert v { p with isLearner := false }
          isLearner := isLearner } v { pr with recentActive := true }))
        fun r' => Sim G s r' ∧ r'.raftLog = r.raftLog ∧ r'.id = r.id := by
    intro isLearner hlearner
    refine Ensures.bind (P := fun pr => pr = { p with isLearner := false }) ?_ ?_
    · unfold Raft.peerProgress Raft.getProgress
      dsimp only
      rw [AList.lookup_insert]
      exact Ensures.ok rfl
    · rintro _ rfl
      have hput : v ∈ r.prs.insert v { p with isLearner := false } := AList.mem_insert _ |>.mpr (Or.inl rfl)
      refine Ensures.pure ?_
      unfold Raft.putProgress
      rw [if_pos hput]
      refine ⟨h.withFlags (fun y => ?_) hlearner fun y q hq => ?_, rfl, rfl⟩
      · rw [AList.mem_insert, AList.mem_insert]
        exact ⟨fun hy => hy.elim (fun hy => hy ▸ hmem) fun hy => hy.elim (fun hy => hy ▸ hmem) id,
          fun hy => Or.inr (Or.inr hy)⟩
      · by_cases hy : y = v
        · subst hy
          rw [AList.lookup_insert, Option.some_or] at hq
          cases hq
          exact ⟨p, hget, rfl, rfl, rfl⟩
        · rw [AList.lookup_insert_ne hy, AList.lookup_insert_ne hy, AList.lookup_erase_ne hy] at hq
          exact ⟨q, hq, rfl, rfl, rfl⟩
  unfold Raft.markActive
  dsimp only
  by_cases hid : r.id = v
  · rw [if_pos hid]
    exact hinserted false fun _ => hid ▸ hv
  · rw [if_neg hid]
    exact hinserted r.isLearner hn.voter

/-- A change of the membership that adds a voter. -/
def ConfChange.AddsTo (voters : Finset ℕ) (cc : ConfChange) : Prop :=
  cc.confChangeType = confChangeAddNode ∧ cc.nodeId ∈ voters

/-- The application applies such a change. -/
theorem Sim.applyConfChange (h : Sim G s n.raft) {cc : ConfChange} (hcc : cc.AddsTo G.voters) :
    Ensures (n.applyConfChange cc) fun p =>
      Sim G s p.2.raft ∧ p.2.raft.raftLog = n.raft.raftLog ∧ p.2.raft.id = n.raft.id := by
  unfold RawNode.applyConfChange
  refine Ensures.ite (fun _ => Ensures.pure ⟨h, rfl, rfl⟩) fun _ => ?_
  rw [if_pos hcc.1]
  exact Ensures.bind (h.addNode hcc.2) fun r' hr' => Ensures.pure hr'

/-- What is taken is written to the storage. -/
theorem Sim.stored (h : Sim G s n.raft) {st : MemoryStorage}
    (hst : n.storage.append n.raft.raftLog.unstable.entries = .ok st) : Sim G s (n.setStorage st).raft := by
  obtain ⟨hl, hlist, -⟩ := h.node.uncompacted.stored hst
  exact h.withLog hl hlist rfl

/-- The node advances past what was taken, once that is in the storage. -/
theorem Sim.advanced (h : Sim G s n.raft) (hentries : rd.entries = n.raft.raftLog.unstable.entries)
    (hsnap : rd.snapshot.isEmpty = true)
    (hstored : rd.entries ≠ [] → n.storage.entries =
      n.storage.entries.take n.raft.raftLog.unstable.offset ++ rd.entries) :
    Sim G s (n.advance rd).raft ∧ (n.advance rd).raft.raftLog.toList = n.raft.raftLog.toList ∧
      (n.advance rd).raft.raftLog.committed = n.raft.raftLog.committed ∧
      (n.advance rd).raft.id = n.raft.id := by
  obtain ⟨k, hk⟩ := RaftLog.appliedTo_eq n.raft.raftLog rd.appliedCursor
  rw [hentries] at hstored
  have hlog := h.node.uncompacted.advanced hstored k
  dsimp only at hlog
  rw [← hentries, ← hk] at hlog
  obtain ⟨hl, hlist, hcommitted⟩ := hlog
  have hsim := h.withLog hl hlist hcommitted
  unfold RawNode.advance
  dsimp only
  rw [if_neg (not_not.mpr hsnap)]
  refine ⟨hsim.congr ?_, hlist, hcommitted, rfl⟩
  rfl

end Node

end RaftCpp
