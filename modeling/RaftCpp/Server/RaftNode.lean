import RaftCpp.Raft.Host
import RaftCpp.Server.RedisStore
import RaftCpp.Wal.Log

/-!
# The node of a server

`RaftNode` of `raft-kv/server/raft_node.h` and `raft-kv/server/raft_node.cpp`: the thread that runs the
node, persists what is ready, sends the messages, and hands the committed entries to the store. Taking a
snapshot, it waits for the store, so that the body of the loop of `pull_ready_events` is in two parts.
-/

namespace RaftCpp

open Outcome

/-- `defaultSnapCount`. -/
def defaultSnapCount : ℕ := 100000

/-- `snapshotCatchUpEntriesN`. -/
def snapshotCatchUpEntriesN : ℕ := 100000

/-- What the thread of a node does to the files, to the transport, to the node, and to the store. -/
inductive Call
  /-- `WAL::save`. -/
  | save (hs : HardState) (entries : List Entry)
  /-- `WAL::save_snapshot`. -/
  | saveSnapshot (snap : WALSnapshot)
  /-- `Snapshotter::save_snap`. -/
  | saveSnap (snapshot : Snapshot)
  /-- `Transport::send`. -/
  | send (messages : List Message)
  /-- `RedisStore::recover_from_snapshot`. -/
  | recoverFromSnapshot (data : Bytes)
  /-- `RedisStore::read_commit`. -/
  | readCommit (entry : Entry)
  /-- `Node::apply_conf_change`, for the change in an entry. -/
  | applyConfChange (entry : Entry)
  /-- `RedisStore::get_snapshot`. -/
  | getSnapshot
  /-- The callback of a proposal or of a message. -/
  | callback (status : Status)
deriving DecidableEq, Repr

/-- The messages that a call hands to the transport. -/
def Call.sent : Call → List Message
  | .send messages => messages
  | _ => []

/-- The node, with the files that it writes. The storage is part of its log. -/
structure RaftNode where
  /-- `id_`. -/
  id : ℕ
  /-- `node_`. -/
  node : RawNode
  /-- `wal_`. -/
  wal : WAL
  /-- The files of `snapshotter_`. -/
  snapFiles : List SnapFile
  /-- `snap_count_`. -/
  snapCount : ℕ := defaultSnapCount
  /-- `conf_state_`. -/
  confState : ConfState := {}
  /-- `snapshot_index_`. -/
  snapshotIndex : ℕ := 0
  /-- `applied_index_`. -/
  appliedIndex : ℕ := 0
  /-- What is ready, while the thread waits for the store in `maybe_trigger_snapshot`. -/
  ready : Option Ready := none
  /-- What the thread did last, in order. -/
  calls : List Call := []

namespace RaftNode

/-- Note what the thread does. -/
def call (n : RaftNode) (c : Call) : RaftNode := { n with calls := n.calls ++ [c] }

/-- The node with another storage. -/
def setStorage (n : RaftNode) (s : MemoryStorage) : RaftNode :=
  { n with node := n.node.setStorage s }

variable (F : Formats)

/-! ## The loop of `pull_ready_events` -/

/-- The call of `WAL::save`. -/
def save (n : RaftNode) (hs : HardState) (entries : List Entry) : RaftNode :=
  { n with wal := n.wal.save F.wal hs entries }.call (.save hs entries)

/-- `save_snap`. -/
def saveSnap (n : RaftNode) (snapshot : Snapshot) : RaftNode :=
  let snap : WALSnapshot := { index := snapshot.metadata.index, term := snapshot.metadata.term }
  let n := { n with wal := n.wal.saveSnapshot F.wal snap }.call (.saveSnapshot snap)
  { n with snapFiles := Snapshotter.saveSnap F.snap n.snapFiles snapshot }.call (.saveSnap snapshot)

/-- `publish_snapshot`. -/
def publishSnapshot (n : RaftNode) (snapshot : Snapshot) : ServerResult RaftNode :=
  if snapshot.isEmpty then .ok n
  else
    let index := snapshot.metadata.index
    if index ≤ n.appliedIndex then .error (.snapshotNotAhead index n.appliedIndex)
    else
      let n := { n with
        confState := snapshot.metadata.confState, snapshotIndex := index, appliedIndex := index }
      .ok (n.call (.recoverFromSnapshot snapshot.data))

/-- `entries_to_apply`. The difference of the indices wraps where nothing was applied before. -/
def entriesToApply (n : RaftNode) : List Entry → ServerResult (List Entry)
  | [] => .ok []
  | e :: es =>
    if e.index > n.appliedIndex + 1 then .error (.committedGap e.index n.appliedIndex)
    else
      let skipped := (sub64 n.appliedIndex e.index + 1) % 2^64
      if skipped < (e :: es).length then .ok ((e :: es).drop skipped) else .ok []

/-- `publish_entries`. It ends early when the node itself is removed, and passes over a configuration change
that cannot be read without counting it as applied. -/
def publishEntries (n : RaftNode) : List Entry → ServerResult (Bool × RaftNode)
  | [] => .ok (true, n)
  | e :: es =>
    match e.type with
    | .entryNormal =>
      let n := if e.data = [] then n else n.call (.readCommit e)
      publishEntries { n with appliedIndex := e.index } es
    | .entryConfChange =>
      match F.confChange.unpack e.data with
      | none => publishEntries n es
      | some cc => do
        let (cs, node) ← ofRaft (n.node.applyConfChange cc)
        let n := { n with confState := cs, node := node }.call (.applyConfChange e)
        if cc.confChangeType = confChangeRemoveNode ∧ cc.nodeId = n.id then return (false, n)
        else publishEntries { n with appliedIndex := e.index } es
    | .other _ => .error .unknownEntryType

/-- The end of the loop's body. -/
def advance (n : RaftNode) (rd : Ready) : RaftNode :=
  { n with node := n.node.advance rd, ready := none }

/-- `maybe_trigger_snapshot` up to the wait for the store, and the end of the loop's body if there is
nothing to wait for. -/
def maybeTriggerSnapshot (n : RaftNode) (rd : Ready) : RaftNode :=
  if sub64 n.appliedIndex n.snapshotIndex ≤ n.snapCount then n.advance rd
  else { n with ready := some rd }.call .getSnapshot

/-- The body of the loop up to the sending of the messages: what is ready is written to the files and to
the storage. -/
def persistReady (n : RaftNode) (rd : Ready) : ServerResult RaftNode := do
  let n := n.save F rd.hardState rd.entries
  let n ←
    if rd.snapshot.isEmpty then pure n
    else
      let n := n.saveSnap F rd.snapshot
      (n.setStorage (n.node.storage.applySnapshot rd.snapshot).2).publishSnapshot rd.snapshot
  let s ← ofRaft (n.node.storage.append rd.entries)
  return n.setStorage s

/-- The body of the loop, for what is ready, up to a wait for the store. -/
def handleReady (n : RaftNode) (rd : Ready) : ServerResult RaftNode := do
  let n ← n.persistReady F rd
  let n := if rd.messages = [] then n else n.call (.send rd.messages)
  let ents ← n.entriesToApply rd.committedEntries
  let (_, n) ← n.publishEntries F ents
  return n.maybeTriggerSnapshot rd

/-- The index that `maybe_trigger_snapshot` compacts the storage to. -/
def compactIndex (n : RaftNode) : ℕ :=
  if n.appliedIndex > snapshotCatchUpEntriesN then n.appliedIndex - snapshotCatchUpEntriesN else 1

/-- `maybe_trigger_snapshot` after the wait for the store. -/
def triggerSnapshot (n : RaftNode) (data : Bytes) : ServerResult RaftNode := do
  let (status, snap, s) ←
    ofRaft (n.node.storage.createSnapshot n.appliedIndex (some n.confState) data)
  if ¬status.isOk then .error .createSnapshot
  else
    let n := (n.setStorage s).saveSnap F snap
    let (status, s) ← ofRaft (n.node.storage.compact n.compactIndex)
    if ¬status.isOk then .error .compact
    else
      return { n.setStorage s with snapshotIndex := n.appliedIndex }

/-- One turn of the loop of `pull_ready_events`. -/
def pullReadyEvents (n : RaftNode) : ServerResult RaftNode := do
  if ¬n.node.hasReady then return n
  else
    let (rd, node) ← ofRaft n.node.ready
    let n := { n with node := node }
    if ¬rd.containsUpdates then return n else n.handleReady F rd

end RaftNode

/-- What the thread of a node is called for. -/
inductive RaftNodeEvent
  /-- The timer. -/
  | tick
  /-- `propose`. -/
  | propose (data : Bytes)
  /-- `process`. -/
  | process (m : Message)
  /-- A turn of the loop of `pull_ready_events`, which follows each of these. -/
  | pull
  /-- The end of the wait for the store. -/
  | snapshotData (data : Bytes)
deriving DecidableEq, Repr

namespace RaftNode

variable (F : Formats)

/-- What happens on an event. Nothing else happens during a wait, and nothing ends a wait that did not
begin. -/
def handle (n : RaftNode) (e : RaftNodeEvent) : ServerResult RaftNode :=
  let n := { n with calls := [] }
  match n.ready, e with
  | none, .tick => do
    let node ← ofRaft n.node.tick
    return { n with node := node }
  | none, .propose data => do
    let (status, node) ← ofRaft (n.node.propose data)
    return { n with node := node }.call (.callback status)
  | none, .process m => do
    let (status, node) ← ofRaft (n.node.step m)
    return { n with node := node }.call (.callback status)
  | none, .pull => n.pullReadyEvents F
  | some rd, .snapshotData data => do
    let n ← n.triggerSnapshot F data
    return n.advance rd
  | _, _ => .ok n

/-- The runs of the thread of a node. -/
abbrev Run : RaftNode → List (Turn RaftNode RaftNodeEvent) → RaftNode → Prop := Trace (handle F)

/-! ## What stays in a step -/

/-- The identity of a node stays, and so does what the operating system holds of its write-ahead log. -/
structure Keeps (n n' : RaftNode) : Prop where
  /-- The identity. -/
  id : n'.id = n.id
  /-- The bytes. -/
  content : n'.wal.file.content = n.wal.file.content

variable {F}

/-- One step after the other. -/
theorem Keeps.trans {n n' n'' : RaftNode} (h : n.Keeps n') (h' : n'.Keeps n'') : n.Keeps n'' :=
  ⟨h'.id.trans h.id, h'.content.trans h.content⟩

/-- What is published is not in the log's file. -/
theorem publishEntries_keeps (es : List Entry) (n : RaftNode) :
    Ensures (n.publishEntries F es) fun p => n.Keeps p.2 := by
  induction es generalizing n with
  | nil => exact Ensures.ok ⟨rfl, rfl⟩
  | cons e es ih =>
    unfold publishEntries
    cases e.type with
    | entryNormal =>
      refine (ih _).mono fun p hp => Keeps.trans ⟨?_, ?_⟩ hp
      · split_ifs <;> rfl
      · split_ifs <;> rfl
    | entryConfChange =>
      dsimp only
      cases F.confChange.unpack e.data with
      | none => exact ih n
      | some cc =>
        refine Ensures.bind Ensures.any fun p _ => ?_
        refine Ensures.ite (fun _ => Ensures.ok ⟨rfl, rfl⟩) fun _ => ?_
        exact (ih _).mono fun p hp => ⟨hp.id, hp.content⟩
    | other code => exact Ensures.error

/-- What is written when something is ready does not reach the operating system. -/
theorem persistReady_keeps (n : RaftNode) (rd : Ready) : Ensures (n.persistReady F rd) n.Keeps := by
  have hsaved : n.Keeps (n.save F rd.hardState rd.entries) :=
    ⟨rfl, WAL.save_content n.wal rd.hardState rd.entries⟩
  have happend : ∀ n' : RaftNode, n.Keeps n' →
      Ensures (ofRaft (n'.node.storage.append rd.entries) >>= fun s => pure (n'.setStorage s)) n.Keeps :=
    fun n' hn' => Ensures.bind Ensures.any fun s _ => Ensures.pure ⟨hn'.id, hn'.content⟩
  unfold persistReady
  dsimp only
  apply Ensures.ite
  · exact fun _ => happend _ hsaved
  · intro _
    refine Ensures.bind (P := n.Keeps) ?_ happend
    unfold publishSnapshot
    refine Ensures.ite (fun _ => Ensures.ok ⟨rfl, hsaved.content⟩) fun _ => ?_
    exact Ensures.ite (fun _ => Ensures.error) fun _ => Ensures.ok ⟨rfl, hsaved.content⟩

/-- Nor does what is written in a turn of the loop. -/
theorem pullReadyEvents_keeps (n : RaftNode) : Ensures (n.pullReadyEvents F) n.Keeps := by
  unfold pullReadyEvents
  refine Ensures.ite (fun _ => Ensures.pure ⟨rfl, rfl⟩) fun _ => ?_
  refine Ensures.bind Ensures.any ?_
  rintro ⟨rd, node⟩ -
  refine Ensures.ite (fun _ => Ensures.pure ⟨rfl, rfl⟩) fun _ => ?_
  unfold handleReady
  refine Ensures.bind (persistReady_keeps _ rd) fun n₁ hn₁ => ?_
  refine Ensures.bind Ensures.any fun es _ => ?_
  have hsent : n.Keeps (if rd.messages = [] then n₁ else n₁.call (.send rd.messages)) := by
    split_ifs
    · exact ⟨hn₁.id, hn₁.content⟩
    · exact ⟨hn₁.id, hn₁.content⟩
  refine Ensures.bind (publishEntries_keeps es _) ?_
  rintro ⟨done, n₂⟩ hn₂
  have hall := hsent.trans hn₂
  refine Ensures.pure ?_
  unfold maybeTriggerSnapshot
  split_ifs
  · exact ⟨hall.id, hall.content⟩
  · exact ⟨hall.id, hall.content⟩

/-- Nor does a snapshot that is saved. -/
theorem triggerSnapshot_keeps (n : RaftNode) (data : Bytes) : Ensures (n.triggerSnapshot F data) n.Keeps := by
  unfold triggerSnapshot
  refine Ensures.bind Ensures.any ?_
  rintro ⟨status, snap, s⟩ -
  refine Ensures.ite (fun _ => Ensures.error) fun _ => ?_
  refine Ensures.bind Ensures.any ?_
  rintro ⟨status', s'⟩ -
  exact Ensures.ite (fun _ => Ensures.error) fun _ => Ensures.pure ⟨rfl, rfl⟩

/-- Nor does any step of the node. -/
theorem handle_keeps (n : RaftNode) (e : RaftNodeEvent) : Ensures (n.handle F e) n.Keeps := by
  unfold handle
  dsimp only
  cases hr : n.ready with
  | none =>
    cases e with
    | tick => exact Ensures.bind Ensures.any fun node _ => Ensures.pure ⟨rfl, rfl⟩
    | propose data => exact Ensures.bind Ensures.any fun p _ => Ensures.pure ⟨rfl, rfl⟩
    | process m => exact Ensures.bind Ensures.any fun p _ => Ensures.pure ⟨rfl, rfl⟩
    | pull => exact (pullReadyEvents_keeps _).mono fun n' hn' => ⟨hn'.id, hn'.content⟩
    | snapshotData data => exact Ensures.ok ⟨rfl, rfl⟩
  | some rd =>
    cases e with
    | snapshotData data =>
      refine Ensures.bind (triggerSnapshot_keeps _ data) fun n' hn' => ?_
      exact Ensures.pure ⟨hn'.id, hn'.content⟩
    | _ => exact Ensures.ok ⟨rfl, rfl⟩

end RaftNode

/-! ## The start -/

/-- The files of a node. -/
structure Disk where
  /-- The file of the write-ahead log, if there is one. -/
  wal : Option Bytes := none
  /-- The snapshot files. -/
  snapFiles : List SnapFile := []
deriving DecidableEq, Repr

/-- The entries behind the pointers, none of which may be null. -/
def derefEntries : List (Option Entry) → Result (List Entry)
  | [] => .ok []
  | none :: _ => .error .nullPointer
  | some e :: es => do
    let es ← derefEntries es
    return e :: es

/-- What `replay_WAL` leaves. -/
structure Replayed where
  /-- `storage_`. -/
  storage : MemoryStorage
  /-- `wal_`. -/
  wal : WAL
  /-- The snapshot files. -/
  snapFiles : List SnapFile
  /-- `snap_data_`. -/
  snapData : Bytes

namespace RaftNode

variable (F : Formats)

/-- `storage_`, when the snapshot is loaded. -/
def baseStorage : Option Snapshot → MemoryStorage
  | some snapshot => (MemoryStorage.empty.applySnapshot snapshot).2
  | none => .empty

/-- `replay_WAL`, with `open_WAL`. -/
def replayWAL (disk : Disk) : Result Replayed := do
  let (loaded, snapFiles) := Snapshotter.load F.snap disk.snapFiles
  let snapshot := loaded.getD {}
  let content := disk.wal.getD (WAL.create F.wal)
  let (hs, ents, wal) ← (WAL.openLog content
    { index := snapshot.metadata.index, term := snapshot.metadata.term }).readAll F.wal
  let ents ← derefEntries ents
  let storage ← ((baseStorage loaded).setHardState hs).append ents
  return {
    storage := storage
    wal := wal
    snapFiles := snapFiles
    snapData := if ents = [] then snapshot.data else [] }

/-- The configuration that the constructor makes. -/
def config (id : ℕ) (storage : MemoryStorage) (device : RandomDevice) : Config :=
  { id := id
    electionTick := 10
    heartbeatTick := 1
    storage := storage
    maxSizePerMsg := 1024 * 1024
    maxUncommittedEntriesSize := 2^30
    maxInflightMsgs := 256
    checkQuorum := true
    preVote := true
    randomDevice := device }

/-- `node_`, as the constructor makes it: over an existing write-ahead log, the node is restarted. -/
def makeNode (walExists : Bool) (peers : ℕ) (c : Config) : Result RawNode :=
  if walExists then RawNode.restartNode c
  else RawNode.startNode F.confChange.pack c ((List.range peers).map fun i => (i + 1, []))

/-- The constructor and `schedule`, in a cluster with so many peers: the node, and the data that the store
starts from. -/
def start (id peers : ℕ) (device : RandomDevice) (disk : Disk) :
    ServerResult (RaftNode × Bytes) := do
  let replayed ← ofRaft (replayWAL F disk)
  match (config id replayed.storage device).validate with
  | (.ok, c) =>
    let node ← ofRaft (makeNode F disk.wal.isSome peers c)
    let metadata := node.storage.snapshot.metadata
    return (
      { id := id
        node := node
        wal := replayed.wal
        snapFiles := replayed.snapFiles
        confState := metadata.confState
        snapshotIndex := metadata.index
        appliedIndex := metadata.index }, replayed.snapData)
  | _ => .error .invalidConfig

end RaftNode

end RaftCpp
