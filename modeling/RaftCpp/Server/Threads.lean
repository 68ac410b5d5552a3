import RaftCpp.Server.Formats
import RaftCpp.Server.RaftNode

/-!
# The two threads of a server

The thread of the node and the thread of the store each take what was posted to them in order. The node
posts the committed entries, the snapshots, and what became of a proposal; the store posts the proposals.
When the node takes a snapshot, it waits for a promise that the store keeps when it comes to that task.
-/

namespace RaftCpp

/-- What the node posts to the store. -/
inductive StoreTask
  /-- `read_commit`. -/
  | readCommit (entry : Entry)
  /-- `recover_from_snapshot`. -/
  | recoverFromSnapshot (data : Bytes)
  /-- `get_snapshot`. -/
  | getSnapshot
  /-- What `set` does when its proposal was taken or refused. -/
  | setProposed (commitId : UInt32) (status : Status)
  /-- What `del` does then. -/
  | delProposed (commitId : UInt32) (status : Status)
deriving DecidableEq, Repr

/-- The task that a call of the node posts to the store, if it posts one. -/
def Call.task : Call → Option StoreTask
  | .readCommit entry => some (.readCommit entry)
  | .recoverFromSnapshot data => some (.recoverFromSnapshot data)
  | .getSnapshot => some .getSnapshot
  | _ => none

/-- The commands that clients propose. -/
inductive RequestKind
  /-- `set`. -/
  | set
  /-- `del`. -/
  | del
deriving DecidableEq, Repr

/-- What the store posts to the node. -/
structure Proposal where
  /-- The kind of the request. -/
  kind : RequestKind
  /-- The number of the request. -/
  commitId : UInt32
  /-- The data of the entry. -/
  data : Bytes
deriving DecidableEq, Repr

/-- The task that the callback of a proposal posts. -/
def Proposal.proposed (p : Proposal) (status : Status) : StoreTask :=
  match p.kind with
  | .set => .setProposed p.commitId status
  | .del => .delProposed p.commitId status

/-- The task that a call posts, where the node handles a proposal. -/
def Proposal.task (p : Proposal) : Call → Option StoreTask
  | .callback status => some (p.proposed status)
  | c => c.task

/-- What the store does in a task: the clients that it answers, the data that it promised, and the store
after it. -/
def RedisStore.run (F : Formats) (nodeId : ℕ) (s : RedisStore) :
    StoreTask → ServerResult (List Reply × Option Bytes × RedisStore)
  | .readCommit entry => do
    let (replies, s) ← s.readCommit F nodeId entry
    return (replies, none, s)
  | .recoverFromSnapshot data => do
    let s ← s.recoverFromSnapshot F data
    return ([], none, s)
  | .getSnapshot => .ok ([], some (s.getSnapshot F), s)
  | .setProposed commitId status =>
    let (replies, s) := s.setProposed commitId status
    .ok (replies, none, s)
  | .delProposed commitId status =>
    let (replies, s) := s.delProposed commitId status
    .ok (replies, none, s)

/-- A server: the node, the store, and what is posted to them. -/
structure Server where
  /-- The node. -/
  node : RaftNode
  /-- The store. -/
  store : RedisStore
  /-- What is posted to the store. -/
  tasks : List StoreTask := []
  /-- What is posted to the node. -/
  proposals : List Proposal := []
  /-- The data that the node waits for, once the store has them. -/
  promise : Option Bytes := none
  /-- The clients that were answered last. -/
  replies : List Reply := []

/-- What happens in a server. -/
inductive ServerEvent
  /-- The timer of the node. -/
  | tick
  /-- A message to the node. -/
  | process (m : Message)
  /-- A turn of the loop of the node. -/
  | pull
  /-- The node takes the next proposal. -/
  | propose
  /-- The node goes on with the data that were promised. -/
  | resume
  /-- A client sets a key. -/
  | set (key value : Bytes) (callback : ℕ)
  /-- A client deletes keys. -/
  | del (keys : List Bytes) (callback : ℕ)
  /-- The store takes the next task. -/
  | task
deriving DecidableEq

namespace Server

variable (F : Formats)

/-- The node's thread handles an event, and its calls are posted. -/
def onNode (s : Server) (e : RaftNodeEvent) (post : Call → Option StoreTask) : ServerResult Server := do
  let n ← s.node.handle F e
  return { s with node := n, tasks := s.tasks ++ n.calls.filterMap post }

/-- A request of a client: the store keeps its callback, and posts the proposal. -/
def request (s : Server) (kind : RequestKind) : UInt32 × Bytes × RedisStore → Server
  | (commitId, data, store) =>
    { s with
      store := store
      proposals := s.proposals ++ [{ kind := kind, commitId := commitId, data := data }] }

/-- The store's thread takes the next task. -/
def runTask (s : Server) : ServerResult Server :=
  match s.tasks with
  | [] => .ok s
  | t :: ts => do
    let (replies, data, store) ← s.store.run F s.node.id t
    return { s with store := store, tasks := ts, promise := data.or s.promise, replies := replies }

/-- What happens on an event. While the node waits, its thread does nothing else. -/
def handle (s : Server) (e : ServerEvent) : ServerResult Server :=
  let s := { s with replies := [] }
  match e with
  | .tick => s.onNode F .tick Call.task
  | .process m => s.onNode F (.process m) Call.task
  | .pull => s.onNode F .pull Call.task
  | .propose =>
    match s.node.ready, s.proposals with
    | none, p :: ps => { s with proposals := ps }.onNode F (.propose p.data) p.task
    | _, _ => .ok s
  | .resume =>
    match s.promise with
    | some data => { s with promise := none }.onNode F (.snapshotData data) Call.task
    | none => .ok s
  | .set key value callback => .ok (s.request .set (s.store.set F s.node.id key value callback))
  | .del keys callback => .ok (s.request .del (s.store.del F s.node.id keys callback))
  | .task => s.runTask F

/-- The runs of a server. -/
abbrev Run : Server → List (Turn Server ServerEvent) → Server → Prop := Trace (handle F)

/-- The start of a server over its files, in a cluster with so many peers. -/
def start (id peers : ℕ) (device : RandomDevice) (disk : Disk) : ServerResult Server := do
  let (n, data) ← RaftNode.start F id peers device disk
  let store ← RedisStore.new F data
  return { node := n, store := store }

end Server

/-- The first of three servers. -/
def firstServer : ServerResult Server := Server.start msgpackFormats 1 3 { draws := fun _ => 0 } {}

end RaftCpp
