import RaftCpp.Raft.Step

/-!
# The interface of a node to its application

`Ready` of `raft-kv/raft/ready.h` and `raft-kv/raft/ready.cpp`, and `RawNode` of
`raft-kv/raft/node.h` and `raft-kv/raft/node.cpp`.
-/

namespace RaftCpp

/-- The volatile state of a node that an application may want to know. -/
structure SoftState where
  /-- The leader, or zero. -/
  lead : ℕ
  /-- The role. -/
  state : RaftState
deriving DecidableEq, Repr

/-- `soft_state`. -/
def Raft.softState (r : Raft) : SoftState := { lead := r.lead, state := r.state }

/-- `learner_nodes`, in ascending order. The loop of the source ends at the end of the voters' map,
which the standard library represents like the end of the learners'. -/
def Raft.learnerNodes (r : Raft) : List ℕ := r.learnerPrs.keys.insertionSort (· ≤ ·)

/-- What an application has to persist, apply, and send. -/
structure Ready where
  /-- The volatile state, if it changed. -/
  softState : Option SoftState := none
  /-- The hard state, if it changed; otherwise the empty one. -/
  hardState : HardState := {}
  /-- The reads that are ready to be served. -/
  readStates : List ReadState := []
  /-- The entries to persist. -/
  entries : List Entry := []
  /-- The snapshot to persist. -/
  snapshot : Snapshot := {}
  /-- The entries to apply. -/
  committedEntries : List Entry := []
  /-- The messages to send once the rest is persisted. -/
  messages : List Message := []
  /-- Whether the hard state and the entries have to be written synchronously. -/
  mustSync : Bool := false

namespace Ready

/-- The constructor, which takes the node's messages with it. The comparison of the hard state for
`must_sync` is with the one that the constructor has just set. -/
def new (r : Raft) (preSoft : SoftState) (preHard : HardState) : Result Ready := do
  let committedEntries ← r.raftLog.nextEntries
  let hs := r.hardState
  let hardState := if hs ≠ preHard then hs else {}
  return {
    softState := if r.softState ≠ preSoft then some r.softState else none
    hardState := hardState
    readStates := r.readStates
    entries := r.raftLog.unstable.entries
    snapshot := r.raftLog.unstable.snapshot.getD {}
    committedEntries := committedEntries
    messages := r.msgs
    mustSync := isMustSync hs hardState r.raftLog.unstable.entries.length }

/-- `contains_updates`. The last disjunct holds when there are no read states. -/
def containsUpdates (rd : Ready) : Bool :=
  rd.softState != none || !rd.hardState.isEmptyState || !rd.snapshot.isEmpty || rd.entries != [] ||
    rd.committedEntries != [] || rd.messages != [] || rd.readStates == []

/-- `applied_cursor`: the index of the last entry handed out, or of the snapshot, or zero. -/
def appliedCursor (rd : Ready) : ℕ :=
  match rd.committedEntries.getLast? with
  | some e => e.index
  | none => rd.snapshot.metadata.index

end Ready

/-- A node with the states that its application was last told of. -/
structure RawNode where
  /-- The node. -/
  raft : Raft
  /-- The volatile state last handed out. -/
  prevSoftState : SoftState
  /-- The hard state last handed out. -/
  prevHardState : HardState

namespace RawNode

/-- The states that both constructors start from. -/
def ofRaft (r : Raft) (lastIndex : ℕ) : RawNode :=
  { raft := r
    prevSoftState := r.softState
    prevHardState := if lastIndex = 0 then {} else r.hardState }

/-- The constructor without peers: the membership comes from the storage or the configuration. -/
def restartNode (c : Config) : Result RawNode := do
  let r ← Raft.new c
  return ofRaft r c.storage.lastIndex

/-- The configuration changes that the constructor with peers starts the log with, one for each
peer. -/
def bootstrapEntries (serialize : ConfChange → Bytes) : ℕ → List (ℕ × Bytes) → List Entry
  | _, [] => []
  | i, (id, context) :: peers =>
    { type := .entryConfChange, term := 1, index := i + 1,
      data := serialize
        { id := 0, confChangeType := confChangeAddNode, nodeId := id, context := context } } ::
      bootstrapEntries serialize (i + 1) peers

/-- The constructor with peers: over an empty log, the peers are added as voters by committed
entries of the first term. -/
def startNode (serialize : ConfChange → Bytes) (c : Config) (peers : List (ℕ × Bytes)) :
    Result RawNode := do
  let r ← Raft.new c
  if c.storage.lastIndex = 0 then
    let r := r.becomeFollower 1 0
    let entries := bootstrapEntries serialize 0 peers
    let l ← r.raftLog.append entries
    let r := { r with raftLog := { l with committed := entries.length } }
    let r ← peers.foldlM (fun r peer => r.addNode peer.1) r
    return ofRaft r c.storage.lastIndex
  else return ofRaft r c.storage.lastIndex

/-- `tick`. -/
def tick (n : RawNode) : Result RawNode := do
  let r ← n.raft.tick
  return { n with raft := r }

/-- A message stepped into the node. -/
def stepRaft (n : RawNode) (m : Message) : Result (Status × RawNode) := do
  let (status, r) ← n.raft.step m
  return (status, { n with raft := r })

/-- `campaign`. -/
def campaign (n : RawNode) : Result (Status × RawNode) := n.stepRaft { type := .msgHup }

/-- `propose`. -/
def propose (n : RawNode) (data : Bytes) : Result (Status × RawNode) :=
  n.stepRaft { type := .msgProp, fromId := n.raft.id, entries := [{ data := data }] }

/-- `step`: local messages and answers of unknown nodes are rejected. -/
def step (n : RawNode) (m : Message) : Result (Status × RawNode) :=
  if m.isLocalMsg then
    .ok (.invalidArgument "raft: cannot step raft local message", n)
  else if (n.raft.getProgress m.fromId).isSome ∨ ¬ m.isResponseMsg then n.stepRaft m
  else .ok (.invalidArgument "raft: cannot step as peer not found", n)

/-- `has_ready`. -/
def hasReady (n : RawNode) : Bool :=
  let r := n.raft
  let hs := r.hardState
  r.softState != n.prevSoftState || (!hs.isEmptyState && hs != n.prevHardState) ||
    (match r.raftLog.unstable.snapshot with | some s => !s.isEmpty | none => false) ||
    r.msgs != [] || r.raftLog.unstable.entries != [] || r.raftLog.hasNextEntries ||
    r.readStates != []

/-- `ready`. -/
def ready (n : RawNode) : Result (Ready × RawNode) := do
  let rd ← Ready.new n.raft n.prevSoftState n.prevHardState
  return (rd, { n with
    raft := { n.raft with msgs := [] }.reduceUncommittedSize rd.committedEntries })

/-- `advance`. -/
def advance (n : RawNode) (rd : Ready) : RawNode :=
  let l := n.raft.raftLog
  let l := l.appliedTo rd.appliedCursor
  let l := match rd.entries.getLast? with
    | some e => l.stableTo e.index e.term
    | none => l
  let l := if ¬ rd.snapshot.isEmpty then l.stableSnapTo rd.snapshot.metadata.index else l
  { raft := { n.raft with
      raftLog := l, readStates := if rd.readStates ≠ [] then [] else n.raft.readStates }
    prevSoftState := rd.softState.getD n.prevSoftState
    prevHardState := if rd.hardState.isEmptyState then n.prevHardState else rd.hardState }

/-- `apply_conf_change`. -/
def applyConfChange (n : RawNode) (cc : ConfChange) : Result (ConfState × RawNode) := do
  let r ← if cc.nodeId = 0 then pure n.raft
    else if cc.confChangeType = confChangeAddNode then n.raft.addNodeOrLearner cc.nodeId false
    else if cc.confChangeType = confChangeAddLearnerNode then
      n.raft.addNodeOrLearner cc.nodeId true
    else if cc.confChangeType = confChangeRemoveNode then n.raft.removeNode cc.nodeId
    else if cc.confChangeType = confChangeUpdateNode then pure n.raft
    else throw .invalidConfChangeType
  return ({ nodes := r.nodes, learners := r.learnerNodes }, { n with raft := r })

end RawNode

end RaftCpp
