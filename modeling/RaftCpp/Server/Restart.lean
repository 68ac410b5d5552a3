import RaftCpp.Raft.Booting
import RaftCpp.Server.Applying

/-!
# The start of a server's node

What `replay_WAL` makes of the files, whatever they hold: a storage that starts behind the snapshot and
continues with the entries of the write-ahead log.
-/

namespace RaftCpp

open Outcome

/-- The pointers that were followed were not null. -/
theorem derefEntries_spec (es : List (Option Entry)) :
    Ensures (derefEntries es) fun es' => es = es'.map some := by
  induction es with
  | nil => exact Ensures.ok rfl
  | cons e es ih =>
    cases e with
    | none => exact Ensures.error
    | some e =>
      refine Ensures.bind ih ?_
      rintro es' rfl
      exact Ensures.pure rfl

namespace RaftNode

/-- The storage holds the position of the snapshot only. -/
theorem baseStorage_spec (loaded : Option Snapshot) :
    ∃ dummy, (baseStorage loaded).entries = [dummy] ∧ (baseStorage loaded).dummy = dummy ∧
      dummy.index = (loaded.getD {}).metadata.index ∧
      (baseStorage loaded).snapshot.metadata.index = (loaded.getD {}).metadata.index := by
  cases loaded with
  | none => exact ⟨{}, rfl, rfl, rfl, rfl⟩
  | some snapshot =>
    rw [baseStorage, MemoryStorage.applySnapshot]
    by_cases hzero : snapshot.metadata.index = 0
    · have hle : MemoryStorage.empty.snapshot.metadata.index ≥ snapshot.metadata.index := Nat.le_of_eq hzero
      rw [if_pos hle]
      exact ⟨{}, rfl, rfl, hzero.symm, hzero.symm⟩
    · have hgt : ¬MemoryStorage.empty.snapshot.metadata.index ≥ snapshot.metadata.index := fun hle =>
        hzero (Nat.le_zero.mp hle)
      rw [if_neg hgt]
      exact ⟨_, rfl, rfl, rfl, rfl⟩

variable {F : Formats}

/-- The snapshot that is loaded from the files of a node, or an empty one. -/
def loadedSnapshot (F : Formats) (disk : Disk) : Snapshot :=
  (Snapshotter.load F.snap disk.snapFiles).1.getD {}

/-- The write-ahead log as it is opened behind that snapshot. -/
def openedWAL (F : Formats) (disk : Disk) : WAL :=
  WAL.openLog (disk.wal.getD (WAL.create F.wal))
    { index := (loadedSnapshot F disk).metadata.index, term := (loadedSnapshot F disk).metadata.term }

/-- The entries that are read follow the snapshot. -/
theorem openedWAL_indexed {disk : Disk} {hs : HardState} {ents : List Entry} {wal : WAL}
    (hread : (openedWAL F disk).readAll F.wal = .ok (hs, ents.map some, wal)) :
    IndexedFrom ((loadedSnapshot F disk).metadata.index + 1) ents := by
  unfold WAL.readAll at hread
  obtain ⟨⟨cut, st⟩, hp, hread⟩ := bind_eq_ok.mp hread
  have hpos := readLoop_positioned F.wal _ _ _ _ _ (fun j a h => by cases h) _ hp
  dsimp only at hread hpos
  split_ifs at hread
  have hents : st.ents = ents.map some := congrArg (·.2.1) (Except.ok.inj hread)
  intro j e he
  refine hpos j e ?_
  rw [hents, List.getElem?_map, he]
  rfl

/-- They are appended to the storage of the snapshot. -/
theorem baseStorage_append {loaded : Option Snapshot} {ents : List Entry}
    (hidx : IndexedFrom ((loaded.getD {}).metadata.index + 1) ents) (hs : HardState) :
    ∃ s, ((baseStorage loaded).setHardState hs).append ents = .ok s ∧ s.hardState = hs ∧
      s.snapshot.metadata.index = (loaded.getD {}).metadata.index ∧
      s.dummy.index = (loaded.getD {}).metadata.index ∧ s.entries = s.dummy :: ents := by
  obtain ⟨dummy, hentries, hdummy, hindex, hsnap⟩ := baseStorage_spec loaded
  generalize hbase : (baseStorage loaded).setHardState hs = base
  have hbaseEntries : base.entries = [dummy] := by
    rw [← hbase]
    exact hentries
  have hbaseDummy : base.dummy = dummy := by
    rw [← hbase]
    exact hdummy
  have hbaseState : base.hardState = hs := by
    rw [← hbase]
    rfl
  have hbaseSnap : base.snapshot.metadata.index = (loaded.getD {}).metadata.index := by
    rw [← hbase]
    exact hsnap
  cases hnil : ents with
  | nil =>
    refine ⟨base, rfl, hbaseState, hbaseSnap, ?_, ?_⟩
    · rw [hbaseDummy, hindex]
    · rw [hbaseDummy, hbaseEntries]
  | cons e es =>
    rw [← hnil]
    have hlast : base.lastIndex = dummy.index := by
      unfold MemoryStorage.lastIndex
      rw [hbaseDummy, hbaseEntries]
      rfl
    have hfollow : IndexedFrom (dummy.index + 1) ents := by
      rw [hindex]
      exact hidx
    obtain ⟨s', happ, hs', hsnap', hdummy', hentries'⟩ := MemoryStorage.append_ok (s := base) hfollow
      (by rw [hnil]; simp) (by rw [hlast]) (by rw [hbaseDummy, hnil, List.length_cons]; omega)
    refine ⟨s', happ, hs'.trans hbaseState, ?_, ?_, ?_⟩
    · rw [hsnap', hbaseSnap]
    · rw [hdummy', hbaseDummy, hindex]
    · rw [hentries', hdummy', hbaseDummy, hbaseEntries, Nat.max_self, Nat.add_sub_cancel_left, Nat.sub_self]
      rfl

/-- What `replay_WAL` leaves, whatever the files hold: the entries that were read follow the snapshot. -/
theorem replayWAL_spec (disk : Disk) :
    Ensures (replayWAL F disk) fun r => ∃ hs ents,
      (openedWAL F disk).readAll F.wal = .ok (hs, ents.map some, r.wal) ∧
        IndexedFrom ((loadedSnapshot F disk).metadata.index + 1) ents ∧
        r.storage.hardState = hs ∧
        r.storage.snapshot.metadata.index = (loadedSnapshot F disk).metadata.index ∧
        r.storage.dummy.index = (loadedSnapshot F disk).metadata.index ∧
        r.storage.entries = r.storage.dummy :: ents ∧
        r.snapFiles = (Snapshotter.load F.snap disk.snapFiles).2 ∧
        r.snapData = if ents = [] then (loadedSnapshot F disk).data else [] := by
  unfold replayWAL
  refine Ensures.bind (P := fun p => (openedWAL F disk).readAll F.wal = .ok p) (fun _ h => h) ?_
  rintro ⟨hs, nullable, wal⟩ hread
  refine Ensures.bind (derefEntries_spec nullable) ?_
  rintro ents rfl
  have hidx := openedWAL_indexed hread
  obtain ⟨s, happend, hs', hsnap, hdummy, hentries⟩ := baseStorage_append hidx hs
  refine Ensures.bind (P := fun s' => s' = s) ?_ ?_
  · intro s' hs'
    exact Except.ok.inj (hs'.symm.trans happend)
  · rintro _ rfl
    exact Ensures.pure ⟨hs, ents, hread, hidx, hs', hsnap, hdummy, hentries, rfl, rfl⟩

/-- `replay_WAL` returns if no entry that is read is null. -/
theorem replayWAL_returns {disk : Disk} {hs : HardState} {ents : List Entry} {wal : WAL}
    (hread : (openedWAL F disk).readAll F.wal = .ok (hs, ents.map some, wal)) :
    ∃ r, replayWAL F disk = .ok r := by
  have hderef : ∀ es : List Entry, derefEntries (es.map some) = .ok es := by
    intro es
    induction es with
    | nil => rfl
    | cons e es ih =>
      rw [List.map_cons, derefEntries, ih]
      rfl
  obtain ⟨s, happend, -⟩ := baseStorage_append (openedWAL_indexed hread) hs
  have hread' : (WAL.openLog (disk.wal.getD (WAL.create F.wal))
      { index := ((Snapshotter.load F.snap disk.snapFiles).1.getD {}).metadata.index
        term := ((Snapshotter.load F.snap disk.snapFiles).1.getD {}).metadata.term }).readAll F.wal =
      .ok (hs, ents.map some, wal) := hread
  unfold replayWAL
  dsimp only
  rw [hread']
  simp only [bind, Except.bind, hderef, happend]
  exact ⟨_, rfl⟩

/-- The parts of the storage fit together. -/
theorem replayWAL_consistent (disk : Disk) :
    Ensures (replayWAL F disk) fun r => r.storage.Consistent := by
  refine (replayWAL_spec disk).mono ?_
  rintro r ⟨hs, ents, -, hidx, -, hsnap, hdummy, hentries, -⟩
  constructor
  · rw [hentries, hdummy]
    intro i e he
    cases i with
    | zero =>
      cases he
      exact hdummy
    | succ i =>
      rw [hidx i e he]
      omega
  · rw [hsnap, hdummy]
    exact Nat.le_max_left _ _

/-- The node that the constructor makes has its storage, nothing above the snapshot is applied, and none is
to be installed. -/
theorem makeNode_spec {c : Config} (hs : c.storage.Consistent) (happ : c.applied = 0) (walExists : Bool)
    (peers : ℕ) : Ensures (makeNode F walExists peers c) fun node =>
      ({ node := node } : Host).Sound ∧ node.storage = c.storage ∧
        node.raft.raftLog.applied = c.storage.dummy.index ∧
        node.raft.raftLog.unstable.snapshot = none := by
  have hfits : c.AppliedFits := Or.inl happ
  -- Both constructors change the log of the storage by edits.
  have hedits : ∀ node r, Raft.new c = .ok r → r.raftLog.Edits node.raft.raftLog →
      node.raft.raftLog.Sound ∧ node.raft.raftLog.Fresh →
      ({ node := node } : Host).Sound ∧ node.storage = c.storage ∧
        node.raft.raftLog.applied = c.storage.dummy.index := by
    intro node r hnew hedits hsound
    obtain ⟨hlog, -⟩ := Raft.new_raftLog c r hnew
    obtain ⟨hstorage, happlied, -⟩ := hedits.frame
    refine ⟨⟨hsound.1, fun _ => hsound.2, nofun⟩, ?_, ?_⟩
    · show node.raft.raftLog.storage = _
      rw [hstorage, hlog]
      rfl
    · rw [happlied, hlog]
      exact if_pos happ
  unfold makeNode
  apply Ensures.ite
  · intro _ node hnode
    have hsound := RawNode.restartNode_sound hs hfits node hnode
    obtain ⟨r, hr, hnode⟩ := bind_eq_ok.mp hnode
    cases hnode
    obtain ⟨hhost, hstorage, happlied⟩ := hedits _ r hr Relation.ReflTransGen.refl hsound
    exact ⟨hhost, hstorage, happlied, (Raft.new_sound hs hfits r hr).2.1⟩
  · intro _ node hnode
    obtain ⟨r, hnew, h⟩ := RawNode.startNode_edits hs hfits _ _ node hnode
    obtain ⟨hhost, hstorage, happlied⟩ :=
      hedits node r hnew h (RawNode.startNode_sound hs hfits _ _ node hnode)
    exact ⟨hhost, hstorage, happlied, RawNode.startNode_snapshot hs hfits _ _ node hnode⟩

/-- A node that was just started over its files, and the data that the store starts from. -/
structure Started (F : Formats) (disk : Disk) (id : ℕ) (n : RaftNode) (data : Bytes) : Prop where
  /-- The cursors agree. -/
  sound : n.Sound
  /-- It does not wait for the store. -/
  ready : n.ready = none
  /-- The identity. -/
  id : n.id = id
  /-- `snap_count_` is the default. -/
  snapCount : n.snapCount = defaultSnapCount
  /-- Nothing above the snapshot is applied. -/
  applied : n.appliedIndex = (loadedSnapshot F disk).metadata.index
  /-- It is the last snapshot. -/
  snapshotIndex : n.snapshotIndex = (loadedSnapshot F disk).metadata.index
  /-- It is the one of the storage. -/
  snapshot : n.node.storage.snapshot.metadata.index = (loadedSnapshot F disk).metadata.index
  /-- The storage starts behind it. -/
  dummy : n.node.storage.dummy.index = (loadedSnapshot F disk).metadata.index
  /-- There is no snapshot to install. -/
  pending : n.node.raft.raftLog.unstable.snapshot = none
  /-- The store starts from the snapshot, or from nothing. -/
  data : data = (loadedSnapshot F disk).data ∨ data = []

/-- Starting a node. -/
theorem start_spec {id peers : ℕ} {device : RandomDevice} {disk : Disk} {n : RaftNode} {data : Bytes}
    (h : start F id peers device disk = .ok (n, data)) : Started F disk id n data := by
  unfold start at h
  obtain ⟨r, hr, h⟩ := bind_eq_ok.mp h
  rw [ofRaft_eq_ok] at hr
  have hcons := replayWAL_consistent disk r hr
  obtain ⟨hs, ents, -, -, -, hsnap, hdummy, -, -, hdata⟩ := replayWAL_spec disk r hr
  split at h
  · next c hvalid =>
    obtain ⟨-, a, b, rfl⟩ := Config.validate_spec hvalid
    obtain ⟨node, hnode, h⟩ := bind_eq_ok.mp h
    cases h
    rw [ofRaft_eq_ok] at hnode
    obtain ⟨hhost, hstorage, happlied, hpending⟩ := makeNode_spec (c := { config id r.storage device with
      maxUncommittedEntriesSize := a
      maxCommittedSizePerReady := b }) hcons rfl _ _ node hnode
    have hindex : node.storage.snapshot.metadata.index = (loadedSnapshot F disk).metadata.index := by
      rw [hstorage]
      exact hsnap
    refine ⟨⟨hhost, ?_⟩, rfl, rfl, rfl, hindex, hindex, hindex, ?_, hpending, ?_⟩
    · show node.storage.snapshot.metadata.index = node.raft.raftLog.applied
      rw [happlied, hindex]
      exact hdummy.symm
    · show node.storage.dummy.index = _
      rw [hstorage]
      exact hdummy
    · rw [hdata]
      split_ifs
      · exact Or.inl rfl
      · exact Or.inr rfl
  · cases h

/-- A node that was just started has done nothing yet, and has nothing to send. -/
theorem start_silent {id peers : ℕ} {device : RandomDevice} {disk : Disk} {n : RaftNode} {data : Bytes}
    (h : start F id peers device disk = .ok (n, data)) : n.calls = [] ∧ n.node.raft.msgs = [] := by
  unfold start at h
  obtain ⟨r, -, h⟩ := bind_eq_ok.mp h
  split at h
  · next c hvalid =>
    obtain ⟨node, hnode, h⟩ := bind_eq_ok.mp h
    cases h
    rw [ofRaft_eq_ok] at hnode
    have hbuilt : Host.Built (config id r.storage device) { node := node } := by
      unfold makeNode at hnode
      split_ifs at hnode with hexists
      · exact Host.Built.restart hvalid hnode
      · exact Host.Built.start hvalid hnode
    refine ⟨rfl, hbuilt.holds (P := fun r => r.msgs = []) ?_ (fun r l hr => hr) fun r id hr => ?_⟩
    · intro r t lead _ _ hmsgs
      exact (r.reset_msgs t).trans hmsgs
    · refine (Raft.reshapes_addNodeOrLearner id false).mono fun r' hr' => ?_
      obtain ⟨⟨prs, learnerPrs, isLearner, rfl⟩, -⟩ := hr'
      exact hr
  · cases h

end RaftNode

end RaftCpp
