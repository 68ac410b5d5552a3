import RaftCpp.Raft.Delivery
import RaftCpp.Server.RaftNode

/-!
# The application of committed entries

Two cursors say how far the committed entries are applied: `applied_index_` of the server's node, and
`applied` of the log, which `advance` moves at the end of a turn of the loop. They agree between the turns
of the loop, and the entries in between are handed on once and in order, until the node is removed from the
cluster: then `publish_entries` ends early, and `advance` does not know.
-/

namespace RaftCpp

open Outcome

/-! ## Failures of the server -/

/-- A computation of the node fails in its own ways. -/
theorem secures_ofRaft {α : Type} {bad : ServerFatal → Prop} (hbad : ∀ e, ¬bad (.raft e)) {x : Result α}
    {P : α → Prop} (h : Ensures x P) : Secures bad (ofRaft x) P := by
  cases x with
  | ok a => exact Secures.ok (h a rfl)
  | error e => exact Secures.error (hbad e)

/-- The failure of `entries_to_apply`. -/
def ServerFatal.IsCommittedGap : ServerFatal → Prop
  | .committedGap _ _ => True
  | _ => False

/-! ## Entries -/

/-- Nothing is to be done for the entry: a leader appends such an entry at the beginning of its term. -/
def Entry.IsBlank (e : Entry) : Prop := e.type = .entryNormal ∧ e.data = []

instance (e : Entry) : Decidable e.IsBlank :=
  inferInstanceAs (Decidable (e.type = .entryNormal ∧ e.data = []))

/-- The entry that is handed on for application, to the store or to the node. -/
def Call.handedOn : Call → Option Entry
  | .readCommit e | .applyConfChange e => some e
  | _ => none

namespace RaftNode

variable (F : Formats)

/-- A configuration change can be read. -/
def WellFormed (e : Entry) : Prop := e.type = .entryConfChange → (F.confChange.unpack e.data).isSome

instance (e : Entry) : Decidable (WellFormed F e) :=
  inferInstanceAs (Decidable (_ → (F.confChange.unpack e.data).isSome = true))

/-- The entry removes the node with this identity. -/
def Removes (id : ℕ) (e : Entry) : Prop :=
  e.type = .entryConfChange ∧ ∃ cc ∈ F.confChange.unpack e.data,
    cc.confChangeType = confChangeRemoveNode ∧ cc.nodeId = id

instance (id : ℕ) (e : Entry) : Decidable (Removes F id e) :=
  match hcc : F.confChange.unpack e.data with
  | none => .isFalse fun ⟨_, _, h, _⟩ => by rw [hcc] at h; cases h
  | some cc =>
    if h : e.type = .entryConfChange ∧ cc.confChangeType = confChangeRemoveNode ∧ cc.nodeId = id then
      .isTrue ⟨h.1, cc, hcc, h.2⟩
    else .isFalse fun ⟨ht, cc', h', hr⟩ => h ⟨ht, by rw [hcc] at h'; cases h'; exact hr⟩

variable {F} {n : RaftNode} {rd : Ready}

/-- The entries to apply are all that are handed out, where they follow what is applied. -/
theorem entriesToApply_eq {es : List Entry} (hidx : IndexedFrom (n.appliedIndex + 1) es) :
    n.entriesToApply es = .ok es := by
  cases es with
  | nil => rfl
  | cons e es =>
    have he : e.index = n.appliedIndex + 1 := hidx.head
    have hskip : (sub64 n.appliedIndex (n.appliedIndex + 1) + 1) % 2^64 = 0 := by
      rw [sub64, if_neg (by omega)]
      omega
    rw [entriesToApply, he, if_neg (by omega)]
    dsimp only
    rw [hskip, if_pos (by simp), List.drop_zero]

/-- `publish_entries` hands on the entries, and counts those before the removal of the node itself as
applied. -/
theorem publishEntries_spec {P : RawNode → Prop}
    (hP : ∀ node cc p, P node → node.applyConfChange cc = .ok p → P p.2) (es : List Entry) (n : RaftNode)
    (hwell : ∀ e ∈ es, WellFormed F e) (hidx : IndexedFrom (n.appliedIndex + 1) es) (hn : P n.node) :
    Secures ServerFatal.IsCommittedGap (n.publishEntries F es) fun p => ∃ node cs calls,
      P node ∧ p.2 = { n with
        node := node
        confState := cs
        calls := n.calls ++ calls
        appliedIndex := n.appliedIndex + (es.takeWhile fun e => ¬Removes F n.id e).length } ∧
      ((∀ e ∈ es, ¬Removes F n.id e) →
        calls.filterMap Call.handedOn = es.filter fun e => ¬e.IsBlank) := by
  induction es generalizing n with
  | nil =>
    refine Secures.ok ⟨n.node, n.confState, [], hn, ?_, fun _ => rfl⟩
    rw [List.append_nil]
    rfl
  | cons e es ih =>
    have he : e.index = n.appliedIndex + 1 := hidx.head
    have hrest : ∀ e' ∈ es, WellFormed F e' := fun e' h => hwell e' (List.mem_cons_of_mem _ h)
    have htail : IndexedFrom (e.index + 1) es := by
      rw [he]
      exact hidx.tail
    have hcount : ¬Removes F n.id e →
        n.appliedIndex + ((e :: es).takeWhile fun e => ¬Removes F n.id e).length =
          e.index + (es.takeWhile fun e => ¬Removes F n.id e).length := fun hne => by
      rw [List.takeWhile_cons_of_pos (by simpa using hne), List.length_cons, he]
      omega
    unfold publishEntries
    cases ht : e.type with
    | entryNormal =>
      have hne : ¬Removes F n.id e := fun h => by
        rw [h.1] at ht
        cases ht
      dsimp only
      refine (ih _ hrest htail (by split_ifs <;> exact hn)).mono ?_
      rintro p ⟨node, cs, calls, hnode, hp, hcalls⟩
      by_cases hdata : e.data = []
      · have hblank : e.IsBlank := ⟨ht, hdata⟩
        simp only [if_pos hdata] at hp hcalls
        refine ⟨node, cs, calls, hnode, ?_, fun hnot => ?_⟩
        · rw [hcount hne]
          exact hp
        · rw [hcalls fun e' h => hnot e' (List.mem_cons_of_mem _ h),
            List.filter_cons_of_neg (by simpa using hblank)]
      · have hblank : ¬e.IsBlank := fun h => hdata h.2
        simp only [if_neg hdata] at hp hcalls
        refine ⟨node, cs, .readCommit e :: calls, hnode, ?_, fun hnot => ?_⟩
        · rw [hcount hne, List.append_cons]
          exact hp
        · rw [List.filter_cons_of_pos (by simpa using hblank),
            ← hcalls fun e' h => hnot e' (List.mem_cons_of_mem _ h)]
          rfl
    | entryConfChange =>
      have hblank : ¬e.IsBlank := fun h => by
        rw [h.1] at ht
        cases ht
      obtain ⟨cc, hcc⟩ := Option.isSome_iff_exists.mp (hwell e List.mem_cons_self ht)
      dsimp only
      rw [hcc]
      dsimp only
      refine Secures.bind (P := fun p => P p.2) (secures_ofRaft (fun _ h => h) fun p hp =>
        hP _ _ p hn hp) ?_
      rintro ⟨cs, node⟩ hnode
      apply Secures.ite
      · -- The node itself is removed.
        intro hself
        have hremoves : Removes F n.id e := ⟨ht, cc, hcc, hself⟩
        refine Secures.ok ⟨node, cs, [.applyConfChange e], hnode, ?_, fun hnot => ?_⟩
        · rw [List.takeWhile_cons_of_neg (by simpa using hremoves)]
          rfl
        · exact absurd hremoves (hnot e List.mem_cons_self)
      · intro hself
        have hne : ¬Removes F n.id e := by
          rintro ⟨-, cc', hcc', hr⟩
          rw [hcc] at hcc'
          cases hcc'
          exact hself hr
        refine (ih _ hrest htail hnode).mono ?_
        rintro p ⟨node', cs', calls, hnode', hp, hcalls⟩
        refine ⟨node', cs', .applyConfChange e :: calls, hnode', ?_, fun hnot => ?_⟩
        · rw [hcount hne, List.append_cons]
          exact hp
        · rw [List.filter_cons_of_pos (by simpa using hblank),
            ← hcalls fun e' h => hnot e' (List.mem_cons_of_mem _ h)]
          rfl
    | other code => exact Secures.error fun h => h

/-! ## A turn of the loop -/

/-- The calls that write what is ready. -/
def persistCalls (rd : Ready) : List Call :=
  .save rd.hardState rd.entries ::
    if rd.snapshot.isEmpty then []
    else [
      .saveSnapshot { index := rd.snapshot.metadata.index, term := rd.snapshot.metadata.term },
      .saveSnap rd.snapshot, .recoverFromSnapshot rd.snapshot.data]

/-- What is ready is written to the storage, and what a snapshot covers counts as applied. -/
theorem persistReady_spec (n : RaftNode) (rd : Ready) :
    Secures ServerFatal.IsCommittedGap (n.persistReady F rd) fun n' => ∃ s,
      rd.persist n.node.storage = .ok s ∧ n'.node = n.node.setStorage s ∧ n'.id = n.id ∧
        n'.snapCount = n.snapCount ∧ n'.ready = n.ready ∧
        n'.appliedIndex = rd.base n.appliedIndex ∧ n'.calls = n.calls ++ persistCalls rd ∧
        n'.snapshotIndex = rd.base n.snapshotIndex ∧
        (rd.snapshot.isEmpty = false → n.appliedIndex < rd.snapshot.metadata.index) := by
  unfold persistReady Ready.persist Ready.base persistCalls
  dsimp only
  cases he : rd.snapshot.isEmpty with
  | true =>
    refine Secures.bind (Secures.pure (P := fun n' => n' = n.save F rd.hardState rd.entries) rfl) ?_
    rintro _ rfl
    refine Secures.bind (P := fun s => n.node.storage.append rd.entries = .ok s)
      (secures_ofRaft (fun _ h => h) fun s hs => hs) fun s hs => ?_
    exact Secures.pure ⟨s, hs, rfl, rfl, rfl, rfl, rfl, rfl, rfl, nofun⟩
  | false =>
    simp only [Bool.false_eq_true, if_false]
    have hpublish : ∀ m : RaftNode, Secures ServerFatal.IsCommittedGap (m.publishSnapshot rd.snapshot)
        fun m' => m.appliedIndex < rd.snapshot.metadata.index ∧ m' = { m with
          confState := rd.snapshot.metadata.confState
          snapshotIndex := rd.snapshot.metadata.index
          appliedIndex := rd.snapshot.metadata.index
          calls := m.calls ++ [.recoverFromSnapshot rd.snapshot.data] } := fun m => by
      unfold publishSnapshot
      rw [he, if_neg (by simp)]
      exact Secures.ite (fun _ => Secures.error fun h => h) fun hahead =>
        Secures.ok ⟨Nat.lt_of_not_le hahead, rfl⟩
    refine Secures.bind (hpublish _) ?_
    rintro _ ⟨hahead, rfl⟩
    refine Secures.bind (P := fun s =>
      (n.node.storage.applySnapshot rd.snapshot).2.append rd.entries = .ok s)
      (secures_ofRaft (fun _ h => h) fun s hs => hs) fun s hs => ?_
    refine Secures.pure ⟨s, hs, rfl, rfl, rfl, rfl, rfl, ?_, rfl, fun _ => hahead⟩
    simp only [setStorage, saveSnap, save, call, List.append_assoc, List.cons_append,
      List.nil_append]

/-- The node at the end of the turn of the loop that the thread is in. -/
def settled (n : RaftNode) : RawNode :=
  match n.ready with
  | none => n.node
  | some rd => n.node.advance rd

/-- The two cursors agree, and the log of the node fits together. -/
structure Sound (n : RaftNode) : Prop where
  /-- The node. -/
  host : ({ node := n.settled } : Host).Sound
  /-- The cursors. -/
  applied : n.appliedIndex = n.settled.raft.raftLog.applied

end RaftNode

/-- Another storage does not change what the node does when it advances. -/
theorem RawNode.setStorage_advance (n : RawNode) (s : MemoryStorage) (rd : Ready) :
    (n.setStorage s).advance rd = (n.advance rd).setStorage s := by
  have hlog : ({ n.raft.raftLog with storage := s } : RaftLog).advance rd =
      { n.raft.raftLog.advance rd with storage := s } := by
    rw [RaftLog.advance_eq, RaftLog.advance_eq]
    rfl
  have heq : ∀ n : RawNode, n.advance rd =
      { raft := { n.raft with
          raftLog := n.raft.raftLog.advance rd
          readStates := if rd.readStates ≠ [] then [] else n.raft.readStates }
        prevSoftState := rd.softState.getD n.prevSoftState
        prevHardState := if rd.hardState.isEmptyState then n.prevHardState else rd.hardState } :=
    fun _ => rfl
  rw [heq, heq, setStorage]
  dsimp only
  rw [hlog]
  rfl

/-- The node advances over its storage. -/
theorem RawNode.advance_storage (n : RawNode) (rd : Ready) : (n.advance rd).storage = n.storage := by
  have hlog : (n.advance rd).raft.raftLog = n.raft.raftLog.advance rd := rfl
  rw [storage, hlog, RaftLog.advance_eq]
  rfl

/-- The log fits together with any other fields of the node. -/
theorem Host.Sound.of_raftLog {node node' : RawNode} (h : ({ node := node } : Host).Sound)
    (heq : node'.raft.raftLog = node.raft.raftLog) : ({ node := node' } : Host).Sound := by
  constructor
  · rw [show ({ node := node' } : Host).log = node.raft.raftLog from heq]
    exact h.log
  · intro hnone
    rw [show ({ node := node' } : Host).log = node.raft.raftLog from heq]
    exact h.idle hnone
  · rintro _ ⟨⟩

/-- What was taken has the snapshot of the log, if there is one. -/
theorem Host.Sound.hasSnapshotOf {node : RawNode} (h : ({ node := node } : Host).Sound) {rd : Ready}
    (hsnap : rd.snapshot = node.raft.raftLog.unstable.snapshot.getD {}) :
    node.raft.raftLog.HasSnapshotOf rd := by
  unfold RaftLog.HasSnapshotOf
  cases hs : node.raft.raftLog.unstable.snapshot with
  | none =>
    rw [hs] at hsnap
    rw [hsnap]
    rfl
  | some s =>
    have hpos := h.log.pending_applied s hs
    have hne : s.isEmpty = false := by
      unfold Snapshot.isEmpty
      rw [beq_eq_false_iff_ne]
      omega
    rw [hs, Option.getD_some] at hsnap
    rw [hsnap, hne]
    rfl

/-- A node in a turn of the loop, after what was ready in `node` is written to the storage. Only the
membership has changed since. -/
structure RawNode.InTurn (node : RawNode) (rd : Ready) (s : MemoryStorage) (nd : RawNode) : Prop where
  /-- The log fits together, and with what was taken. -/
  host : ({ node := nd, ready := some rd, persisted := true } : Host).Sound
  /-- The snapshot to install is still the one that was taken. -/
  snapshot : nd.raft.raftLog.unstable.snapshot = node.raft.raftLog.unstable.snapshot
  /-- The cursor of the log has not moved. -/
  applied : nd.raft.raftLog.applied = node.raft.raftLog.applied
  /-- The storage. -/
  storage : nd.storage = s

/-- What is ready is written, and the turn is under way. -/
theorem Host.Sound.inTurn {node node₁ : RawNode} (hs : ({ node := node } : Host).Sound) {rd : Ready}
    (hrd : node.ready = .ok (rd, node₁)) {s : MemoryStorage} (hpersist : rd.persist node₁.storage = .ok s) :
    node.InTurn rd s (node₁.setStorage s) := by
  obtain ⟨-, -, -, -, -, size, hnode⟩ := RawNode.ready_eq hrd
  have hlog : node₁.raft.raftLog = node.raft.raftLog := by rw [hnode]
  have hready : Host.handle { node := node } .ready = .ok { node := node₁, ready := some rd } := by
    unfold Host.handle
    rw [hrd]
    rfl
  have h₁ := hs.handle hready trivial (fun h => by cases h.1)
  have hwrite : Host.handle { node := node₁, ready := some rd } .persist = .ok
      { node := node₁.setStorage s, ready := some rd, persisted := true } := by
    unfold Host.handle
    dsimp only
    rw [hpersist]
    rfl
  constructor
  · exact h₁.handle hwrite rfl (fun h => by cases h.1)
  · rw [← hlog]
    rfl
  · rw [← hlog]
    rfl
  · rfl

/-- A configuration change keeps the turn under way. -/
theorem RawNode.InTurn.applyConfChange {node nd : RawNode} {rd : Ready} {s : MemoryStorage}
    (h : node.InTurn rd s nd) (cc : ConfChange) {p : ConfState × RawNode}
    (hp : nd.applyConfChange cc = .ok p) : node.InTurn rd s p.2 := by
  have hhandle : Host.handle { node := nd, ready := some rd, persisted := true }
      (.applyConfChange cc) = .ok { node := p.2, ready := some rd, persisted := true } := by
    unfold Host.handle
    dsimp only
    rw [hp]
    rfl
  have hmoves := (RawNode.steady_applyConfChange nd cc p hp).1.moves
  have hframe := (hmoves.edits h.host.log (fun m h => by cases h)).frame
  constructor
  · exact h.host.handle hhandle trivial (fun h => by cases h.1)
  · exact (hmoves.snapshot_eq (fun m h => by cases h)).trans h.snapshot
  · exact hframe.2.1.trans h.applied
  · exact hframe.1.trans h.storage

/-- The turn ends well when the node advances: everything that was taken is applied, and no snapshot is left
to install. -/
theorem RawNode.InTurn.advance {node node₁ nd : RawNode} {rd : Ready} {s : MemoryStorage}
    (h : node.InTurn rd s nd) (hs : ({ node := node } : Host).Sound)
    (hrd : node.ready = .ok (rd, node₁)) : ({ node := nd.advance rd } : Host).Sound ∧
      (nd.advance rd).raft.raftLog.applied =
        rd.base node.raft.raftLog.applied + rd.committedEntries.length ∧
      (nd.advance rd).raft.raftLog.unstable.snapshot = none := by
  obtain ⟨-, -, -, hsnap, -⟩ := RawNode.ready_eq hrd
  have hsnapshot : nd.raft.raftLog.HasSnapshotOf rd := h.snapshot.trans (hs.hasSnapshotOf hsnap)
  have hadvance : Host.handle { node := nd, ready := some rd, persisted := true } .advance =
      .ok { node := nd.advance rd } := rfl
  have hlog : (nd.advance rd).raft.raftLog = nd.raft.raftLog.advance rd := rfl
  refine ⟨h.host.handle hadvance rfl ?_, ?_, ?_⟩
  · -- The snapshot to be installed is the one that was taken.
    rintro ⟨-, rd', hrd', s', hs', hne, -⟩
    cases hrd'
    have hs'' := hs'.symm.trans hsnapshot
    split_ifs at hs''
    · cases hs''
      exact hne rfl
  · have hfollow := (hs.ready_follows hrd).2.2.1
    calc (nd.raft.raftLog.advance rd).applied = nd.raft.raftLog.appliedAfter rd := by
          rw [RaftLog.advance_eq]
      _ = node.raft.raftLog.appliedAfter rd := by
          unfold RaftLog.appliedAfter
          rw [h.applied]
      _ = _ := hfollow
  · rw [hlog]
    exact RaftLog.InRound.snapshot_advance hsnapshot

namespace RaftNode

variable {F : Formats} {n : RaftNode} {rd : Ready}

/-- A turn of the loop hands on what is ready, and moves both cursors behind it, unless the node itself is
removed: then `applied_index_` stays behind. -/
theorem handleReady_spec {node : RawNode} (hs : ({ node := n.node } : Host).Sound)
    (happ : n.appliedIndex = n.node.raft.raftLog.applied) (hrd : n.node.ready = .ok (rd, node))
    (hwell : ∀ e ∈ rd.committedEntries, WellFormed F e) :
    Secures ServerFatal.IsCommittedGap ({ n with node := node, calls := [] }.handleReady F rd) fun n' =>
      n'.id = n.id ∧ ({ node := n'.settled } : Host).Sound ∧
        n'.settled.raft.raftLog.applied = rd.base n.appliedIndex + rd.committedEntries.length ∧
        n'.appliedIndex = rd.base n.appliedIndex +
          (rd.committedEntries.takeWhile fun e => ¬Removes F n.id e).length ∧
        ((∀ e ∈ rd.committedEntries, ¬Removes F n.id e) →
          n'.calls.filterMap Call.handedOn = rd.committedEntries.filter fun e => ¬e.IsBlank) := by
  obtain ⟨-, hidx, -, -⟩ := hs.ready_follows hrd
  unfold handleReady
  refine Secures.bind (persistReady_spec _ rd) ?_
  rintro n₁ ⟨s, hpersist, hnode, hid, -, hready, happlied, hcalls, -, -⟩
  have hturn := hs.inTurn hrd hpersist
  -- Sending the messages only adds a call.
  obtain ⟨n₂, hn₂, hn₂', hcalls₂⟩ : ∃ n₂, n₂ = (if rd.messages = [] then n₁ else
      n₁.call (.send rd.messages)) ∧ (n₂.node = n₁.node ∧ n₂.id = n₁.id ∧ n₂.ready = n₁.ready ∧
        n₂.appliedIndex = n₁.appliedIndex) ∧ n₂.calls.filterMap Call.handedOn = [] := by
    refine ⟨_, rfl, ?_, ?_⟩
    · split_ifs <;> exact ⟨rfl, rfl, rfl, rfl⟩
    · have hnil : n₁.calls.filterMap Call.handedOn = [] := by
        rw [hcalls]
        unfold persistCalls
        cases rd.snapshot.isEmpty <;> rfl
      split_ifs
      · exact hnil
      · rw [call, List.filterMap_append, hnil]
        rfl
  obtain ⟨hnode₂, hid₂, hready₂, happlied₂⟩ := hn₂'
  have hbase : n₂.appliedIndex = rd.base n.appliedIndex := happlied₂.trans happlied
  have hidx₂ : IndexedFrom (n₂.appliedIndex + 1) rd.committedEntries := by
    rw [hbase, happ]
    exact hidx
  dsimp only
  rw [← hn₂, entriesToApply_eq hidx₂]
  refine Secures.bind (Secures.pure rfl) ?_
  rintro _ rfl
  refine Secures.bind (publishEntries_spec (P := n.node.InTurn rd s)
    (fun _ cc _ h hp => h.applyConfChange cc hp) _ n₂ hwell hidx₂ ?_) ?_
  · rw [hnode₂, hnode]
    exact hturn
  rintro ⟨done, n₃⟩ ⟨nd, cs, calls, hnd, rfl, hhanded⟩
  obtain ⟨hsound, hcursor, -⟩ := hnd.advance hs hrd
  rw [← happ] at hcursor
  have hidn : n₂.id = n.id := hid₂.trans hid
  rw [hidn] at hhanded
  refine Secures.pure ?_
  unfold maybeTriggerSnapshot
  dsimp only
  rw [hidn, hbase]
  split_ifs
  · refine ⟨rfl, hsound, hcursor, rfl, fun hnot => ?_⟩
    show (n₂.calls ++ calls).filterMap Call.handedOn = _
    rw [List.filterMap_append, hcalls₂, hhanded hnot, List.nil_append]
  · refine ⟨rfl, hsound, hcursor, rfl, fun hnot => ?_⟩
    show (n₂.calls ++ calls ++ [Call.getSnapshot]).filterMap Call.handedOn = _
    rw [List.filterMap_append, List.filterMap_append, hcalls₂, hhanded hnot, List.nil_append]
    exact List.append_nil _

/-- A snapshot that is put into the storage covers something. -/
theorem createSnapshot_pos {s s' : MemoryStorage} {index : ℕ}
    {cs : Option ConfState} {data : Bytes} {status : Status} {snap : Snapshot}
    (h : s.createSnapshot index cs data = .ok (status, snap, s')) (hok : status.isOk = true) :
    0 < index := by
  unfold MemoryStorage.createSnapshot at h
  split_ifs at h with hle
  · cases h
    cases hok
  · omega

/-- The snapshot that the store delivers is of applied entries, and so is what is compacted. -/
theorem triggerSnapshot_spec (data : Bytes) (hs : ({ node := n.node.advance rd } : Host).Sound)
    (happ : n.appliedIndex ≤ (n.node.advance rd).raft.raftLog.applied) :
    Secures ServerFatal.IsCommittedGap (n.triggerSnapshot F data) fun n' =>
      n'.id = n.id ∧ n'.appliedIndex = n.appliedIndex ∧
        ({ node := n'.node.advance rd } : Host).Sound ∧
        (n'.node.advance rd).raft.raftLog.applied = (n.node.advance rd).raft.raftLog.applied ∧
        n'.calls.filterMap Call.handedOn = n.calls.filterMap Call.handedOn := by
  have hcall : ∀ (m : RaftNode) (snap : Snapshot), (m.saveSnap F snap).calls.filterMap Call.handedOn =
      m.calls.filterMap Call.handedOn := fun m snap => by
    simp only [saveSnap, call, List.filterMap_append]
    exact (List.append_nil _).trans (List.append_nil _)
  unfold triggerSnapshot
  refine Secures.bind (P := fun p => n.node.storage.createSnapshot n.appliedIndex (some n.confState) data
    = .ok p) (secures_ofRaft (fun _ h => h) fun _ h => h) ?_
  rintro ⟨status, snap, s⟩ hcreate
  apply Secures.ite
  · exact fun _ => Secures.error fun h => h
  intro hok
  have hpos := createSnapshot_pos hcreate (not_not.mp hok)
  have hsnap : Host.handle { node := n.node.advance rd }
      (.createSnapshot n.appliedIndex (some n.confState) data) =
        .ok { node := (n.node.advance rd).setStorage s } := by
    unfold Host.handle
    dsimp only
    rw [n.node.advance_storage rd, hcreate]
    rfl
  have h₁ := hs.handle hsnap happ (fun h => by cases h.1)
  dsimp only
  refine Secures.bind (secures_ofRaft (fun _ h => h) fun _ h => h) ?_
  rintro ⟨status', s'⟩ hcompact
  apply Secures.ite
  · exact fun _ => Secures.error fun h => h
  intro _
  have hindex : n.compactIndex ≤ n.appliedIndex := by
    unfold compactIndex
    split_ifs <;> omega
  have hcompacted : Host.handle { node := (n.node.advance rd).setStorage s } (.compact n.compactIndex) =
      .ok { node := ((n.node.advance rd).setStorage s).setStorage s' } := by
    unfold Host.handle
    dsimp only
    rw [show ((n.node.advance rd).setStorage s).storage.compact n.compactIndex = .ok (status', s')
      from hcompact]
    rfl
  have h₂ := h₁.handle hcompacted (Nat.le_trans hindex happ) (fun h => by cases h.1)
  have hnode : ((n.node.setStorage s).setStorage s').advance rd =
      ((n.node.advance rd).setStorage s).setStorage s' := by
    rw [RawNode.setStorage_advance, RawNode.setStorage_advance]
  refine Secures.pure ⟨rfl, rfl, ?_, ?_, hcall _ snap⟩
  · show ({ node := ((n.node.setStorage s).setStorage s').advance rd } : Host).Sound
    rw [hnode]
    exact h₂
  · show (((n.node.setStorage s).setStorage s').advance rd).raft.raftLog.applied = _
    rw [hnode]
    rfl

/-! ## Steps -/

end RaftNode

/-- The contract of the peers: the entries of an append message follow its index. -/
def RaftNodeEvent.Consecutive : RaftNodeEvent → Prop
  | .process m => m.Consecutive
  | _ => True

instance (e : RaftNodeEvent) : Decidable e.Consecutive :=
  match e with
  | .process m => inferInstanceAs (Decidable m.Consecutive)
  | .tick | .propose _ | .pull | .snapshotData _ => .isTrue trivial

namespace RaftNode

variable {F : Formats} {n : RaftNode} {rd : Ready}

/-- What a turn of the loop takes, if it takes something. -/
def taken (n : RaftNode) : RaftNodeEvent → Option Ready
  | .pull =>
    match n.ready, n.node.ready with
    | none, .ok (rd, _) => if n.node.hasReady ∧ rd.containsUpdates then some rd else none
    | _, _ => none
  | _ => none

/-- What is taken was ready. -/
theorem ready_of_taken {e : RaftNodeEvent} (h : n.taken e = some rd) :
    e = .pull ∧ n.ready = none ∧ ∃ node, n.node.ready = .ok (rd, node) := by
  cases e with
  | pull =>
    unfold taken at h
    cases hr : n.ready with
    | some rd' =>
      rw [hr] at h
      cases h
    | none =>
      cases hn : n.node.ready with
      | error err =>
        rw [hr, hn] at h
        cases h
      | ok p =>
        rw [hr, hn] at h
        dsimp only at h
        split_ifs at h
        cases h
        exact ⟨rfl, rfl, p.2, rfl⟩
  | _ => cases h

/-- The node between the turns of the loop. -/
theorem settled_of_none (h : n.ready = none) : n.settled = n.node := by
  unfold settled
  rw [h]

/-- What the node does on a message or a tick moves no cursor. -/
theorem sound_moved {node node' : RawNode} {e : HostEvent} (hs : ({ node := node } : Host).Sound)
    (hne : e.cause ≠ none) (horder : e.Orderly { node := node })
    (hh : Host.handle { node := node } e = .ok { node := node' }) :
    ({ node := node' } : Host).Sound ∧ node'.raft.raftLog.applied = node.raft.raftLog.applied := by
  have hadvance : e ≠ .advance := fun h => hne (by rw [h]; rfl)
  refine ⟨hs.handle hh horder fun h => hadvance h.1, ?_⟩
  rcases (hs.handle_cursors hh horder).1 with h | ⟨rd, h, -⟩
  · exact h
  · exact absurd h hadvance

/-- What an event does to the cursors and hands on. -/
structure Handled (F : Formats) (n : RaftNode) (e : RaftNodeEvent) (n' : RaftNode) : Prop where
  /-- The identity stays. -/
  id : n'.id = n.id
  /-- The log fits together. -/
  host : ({ node := n'.settled } : Host).Sound
  /-- Where nothing is taken, the cursors stay, and nothing is handed on. -/
  none : n.taken e = none → n'.appliedIndex = n.appliedIndex ∧
    n'.settled.raft.raftLog.applied = n.appliedIndex ∧ n'.calls.filterMap Call.handedOn = []
  /-- Where something is taken, the log's cursor moves behind it, the other one moves up to a removal of
  the node itself, and without one all of the entries are handed on. -/
  some : ∀ rd, n.taken e = some rd →
    n'.settled.raft.raftLog.applied = rd.base n.appliedIndex + rd.committedEntries.length ∧
      n'.appliedIndex = rd.base n.appliedIndex +
        (rd.committedEntries.takeWhile fun e => ¬Removes F n.id e).length ∧
      ((∀ e ∈ rd.committedEntries, ¬Removes F n.id e) →
        n'.calls.filterMap Call.handedOn = rd.committedEntries.filter fun e => ¬e.IsBlank)

/-- A step that takes nothing. -/
theorem Sound.quiet (hs : n.Sound) {e : RaftNodeEvent} {n' : RaftNode} (htaken : n.taken e = none)
    (hid : n'.id = n.id) (hhost : ({ node := n'.settled } : Host).Sound)
    (happ : n'.settled.raft.raftLog.applied = n.settled.raft.raftLog.applied)
    (hindex : n'.appliedIndex = n.appliedIndex) (hcalls : n'.calls.filterMap Call.handedOn = []) :
    Handled F n e n' where
  id := hid
  host := hhost
  none _ := ⟨hindex, happ.trans hs.applied.symm, hcalls⟩
  some rd hrd := by
    rw [htaken] at hrd
    cases hrd

/-- A step between the turns of the loop. -/
theorem Sound.handle_idle (hs : n.Sound) (hr : n.ready = none) {e : RaftNodeEvent}
    (hcons : e.Consecutive) (hwell : ∀ rd ∈ n.taken e, ∀ e ∈ rd.committedEntries, WellFormed F e) :
    Secures ServerFatal.IsCommittedGap (n.handle F e) (Handled F n e) := by
  have hset := settled_of_none hr
  have hhost := hs.host
  have happ := hs.applied
  rw [hset] at hhost happ
  -- The node moves, and nothing is handed on.
  have hmoved : ∀ (node : RawNode) (calls : List Call) (e' : HostEvent), e'.cause ≠ none →
      e'.Orderly { node := n.node } → Host.handle { node := n.node } e' = .ok { node := node } →
      calls.filterMap Call.handedOn = [] → n.taken e = none →
      Handled F n e { n with node := node, calls := calls, ready := none } := by
    intro node calls e' hne horder hh hcalls htaken
    obtain ⟨hsound, happlied⟩ := sound_moved hhost hne horder hh
    refine hs.quiet htaken rfl hsound ?_ rfl hcalls
    rw [hset]
    exact happlied
  have hstay : ∀ node : RawNode, node.raft.raftLog = n.node.raft.raftLog → n.taken e = none →
      Handled F n e { n with node := node, calls := [], ready := none } := by
    intro node hlog htaken
    refine hs.quiet htaken rfl (hhost.of_raftLog hlog) ?_ rfl rfl
    rw [hset]
    exact congrArg RaftLog.applied hlog
  unfold RaftNode.handle
  dsimp only
  rw [hr]
  cases e with
  | tick =>
    refine Secures.bind (secures_ofRaft (fun _ h => h) fun _ h => h) fun node hnode => ?_
    refine Secures.pure (hmoved node [] .tick (by simp [HostEvent.cause]) trivial ?_ rfl rfl)
    unfold Host.handle
    dsimp only
    rw [hnode]
    rfl
  | propose data =>
    refine Secures.bind (secures_ofRaft (fun _ h => h) fun _ h => h) ?_
    rintro ⟨status, node⟩ hnode
    refine Secures.pure (hmoved node [.callback status] (.call { type := .msgProp
                                                                 fromId := n.node.raft.id
                                                                 entries := [{ data := data }] })
      (by simp [HostEvent.cause]) (fun h => by cases h) ?_ rfl rfl)
    unfold Host.handle
    dsimp only
    rw [show n.node.stepRaft _ = .ok (status, node) from hnode]
    rfl
  | process m =>
    refine Secures.bind (secures_ofRaft (fun _ h => h) fun _ h => h) ?_
    rintro ⟨status, node⟩ hnode
    refine Secures.pure (hmoved node [.callback status] (.step m) (by simp [HostEvent.cause]) hcons ?_
      rfl rfl)
    unfold Host.handle
    dsimp only
    rw [hnode]
    rfl
  | pull =>
    unfold pullReadyEvents
    dsimp only
    apply Secures.ite
    · -- Nothing is ready.
      intro hnot
      refine Secures.pure (hstay n.node rfl ?_)
      unfold taken
      rw [hr]
      cases n.node.ready with
      | error err => rfl
      | ok p => exact if_neg fun h => hnot h.1
    intro hhas
    refine Secures.bind (secures_ofRaft (fun _ h => h) fun _ h => h) ?_
    rintro ⟨rd, node⟩ hrd
    have htaken : n.taken .pull = if rd.containsUpdates then some rd else none := by
      unfold taken
      rw [hr, hrd]
      simp [not_not.mp hhas]
    apply Secures.ite
    · intro hnot
      refine Secures.pure (hstay node ?_ ?_)
      · obtain ⟨-, -, -, -, -, size, rfl⟩ := RawNode.ready_eq hrd
        rfl
      · rw [htaken, if_neg hnot]
    · intro hupdates
      rw [if_pos (not_not.mp hupdates)] at htaken
      have hspec := handleReady_spec hhost happ hrd (hwell rd htaken)
      rw [hr] at hspec
      refine hspec.mono fun n' hn' => ?_
      obtain ⟨hid, hsound, happlied, hindex, hhanded⟩ := hn'
      constructor
      · exact hid
      · exact hsound
      · intro h
        rw [htaken] at h
        cases h
      · intro rd' hrd'
        rw [htaken] at hrd'
        cases hrd'
        exact ⟨happlied, hindex, hhanded⟩
  | snapshotData data => exact Secures.ok (hstay n.node rfl rfl)

/-- A step during the wait for the store. -/
theorem Sound.handle_waiting (hs : n.Sound) (hr : n.ready = some rd) (e : RaftNodeEvent) :
    Secures ServerFatal.IsCommittedGap (n.handle F e) (Handled F n e) := by
  have hset : n.settled = n.node.advance rd := by
    unfold settled
    rw [hr]
  have htaken : n.taken e = none := by
    unfold taken
    rw [hr]
    cases e <;> rfl
  have hhost := hs.host
  have happ := hs.applied
  unfold RaftNode.handle
  dsimp only
  rw [hr]
  cases e with
  | snapshotData data =>
    rw [hset] at hhost happ
    refine Secures.bind (triggerSnapshot_spec data hhost (Nat.le_of_eq happ)) ?_
    rintro n' ⟨hid, hindex, hsound, happlied, hcalls⟩
    refine Secures.pure (hs.quiet htaken hid hsound ?_ hindex hcalls)
    rw [hset]
    exact happlied
  | _ =>
    exact Secures.ok (hs.quiet htaken rfl (by rw [hset] at hhost; exact hhost) (by rw [hset]; rfl) rfl rfl)

/-- A step from a state in which the cursors agree. -/
theorem Sound.handle (hs : n.Sound) {e : RaftNodeEvent} (hcons : e.Consecutive)
    (hwell : ∀ rd ∈ n.taken e, ∀ e ∈ rd.committedEntries, WellFormed F e) :
    Secures ServerFatal.IsCommittedGap (n.handle F e) (Handled F n e) := by
  cases hr : n.ready with
  | none => exact hs.handle_idle hr hcons hwell
  | some rd => exact hs.handle_waiting hr e

end RaftNode

end RaftCpp
