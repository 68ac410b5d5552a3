import RaftCpp.Library.AssocMap
import RaftCpp.Wal.Snapshotter

/-!
# The key-value store

`RedisStore` of `raft-kv/server/redis_store.h` and `raft-kv/server/redis_store.cpp`. Its members are used
by one thread, which takes the tasks that are posted to it one after the other and serves the clients in
between. A callback stands for the client that waits for it, and is a number here.
-/

namespace RaftCpp

/-- The places at which the code of the server stops: a `LOG_FATAL`, a failed `assert`, or an exception of
msgpack that it does not catch. -/
inductive ServerFatal
  /-- The node, its storage, or its log stops. -/
  | raft (e : Fatal)
  | committedGap (first applied : ℕ)
  | snapshotNotAhead (index applied : ℕ)
  | unknownEntryType
  | recoverFromSnapshot
  | createSnapshot
  | compact
  | invalidConfig
  | unpackError
  | assertion
deriving DecidableEq, Repr

/-- A computation of the server that may stop. -/
abbrev ServerResult (α : Type) := Except ServerFatal α

/-- A computation of the node, its storage, or its log, as one of the server. -/
def ofRaft {α : Type} : Result α → ServerResult α
  | .ok a => .ok a
  | .error e => .error (.raft e)

/-- It returns what it returned. -/
@[simp] theorem ofRaft_eq_ok {α : Type} {x : Result α} {a : α} : ofRaft x = .ok a ↔ x = .ok a := by
  cases x <;> simp [ofRaft]

/-- `RedisCommitData`: a command. -/
structure RedisCommitData where
  /-- The kind of the command. -/
  type : UInt8
  /-- Its arguments. -/
  strs : List Bytes
deriving DecidableEq, Repr

/-- `kCommitSet`. -/
def kCommitSet : UInt8 := 0

/-- `kCommitDel`. -/
def kCommitDel : UInt8 := 1

/-- `RaftCommit`: a command with the identity of its request. -/
structure RaftCommit where
  /-- The node that the request was made to. -/
  nodeId : UInt32
  /-- The number of the request there. -/
  commitId : UInt32
  /-- The command. -/
  redisData : RedisCommitData
deriving DecidableEq, Repr

/-- The keys with their values. -/
abbrev KeyValues := AList fun _ : Bytes => Bytes

/-- What the data of a server are written and read with. -/
structure Formats where
  /-- The entries. -/
  entry : Codec Entry
  /-- The hard states. -/
  hardState : Codec HardState
  /-- The positions of snapshots. -/
  walSnapshot : Codec WALSnapshot
  /-- The snapshots. -/
  snapshot : Codec Snapshot
  /-- The configuration changes. -/
  confChange : Codec ConfChange
  /-- The commands. -/
  commit : Codec RaftCommit
  /-- The keys with their values. -/
  keyValues : Codec KeyValues
  /-- Whether `msgpack::unpack` finds an object of any type in the bytes. Otherwise it throws. -/
  isObject : Bytes → Bool
  /-- `compute_crc32`. -/
  crc32 : Bytes → UInt32

namespace Formats

/-- The formats of the write-ahead log. -/
def wal (F : Formats) : WALFormat :=
  { entry := F.entry, hardState := F.hardState, snapshot := F.walSnapshot, crc32 := F.crc32 }

/-- The formats of the snapshot files. -/
def snap (F : Formats) : Snapshotter.Format := { snapshot := F.snapshot, crc32 := F.crc32 }

end Formats

/-- A call of a client's callback. -/
structure Reply where
  /-- The callback. -/
  callback : ℕ
  /-- The status that it is called with. -/
  status : Status
deriving DecidableEq, Repr

/-- The store. -/
structure RedisStore where
  /-- `key_values_`. -/
  keyValues : KeyValues := ∅
  /-- `next_request_id_`. -/
  nextRequestId : UInt32 := 0
  /-- `pending_requests_`: the callbacks of the requests that are not answered. -/
  pendingRequests : AList (fun _ : UInt32 => ℕ) := ∅

namespace RedisStore

variable (F : Formats)

/-- The constructor, from the data of a snapshot. Data that is an object of another type is reported and
leaves the store empty. -/
def new (snap : Bytes) : ServerResult RedisStore :=
  if snap = [] then .ok {}
  else if ¬F.isObject snap then .error .unpackError
  else .ok { keyValues := (F.keyValues.unpack snap).getD ∅ }

/-- What `set` and `del` share: the request gets a number, under which its callback waits, and becomes the
data of an entry. -/
def request (s : RedisStore) (nodeId : ℕ) (data : RedisCommitData) (callback : ℕ) :
    UInt32 × Bytes × RedisStore :=
  let commitId := s.nextRequestId
  (commitId,
    F.commit.pack { nodeId := UInt32.ofNat nodeId, commitId := commitId, redisData := data },
    { s with
      nextRequestId := commitId + 1
      pendingRequests := s.pendingRequests.insert commitId callback })

/-- `set`, up to the proposal of the data. -/
def set (s : RedisStore) (nodeId : ℕ) (key value : Bytes) (callback : ℕ) :
    UInt32 × Bytes × RedisStore :=
  s.request F nodeId { type := kCommitSet, strs := [key, value] } callback

/-- `del`, up to the proposal of the data. -/
def del (s : RedisStore) (nodeId : ℕ) (keys : List Bytes) (callback : ℕ) :
    UInt32 × Bytes × RedisStore :=
  s.request F nodeId { type := kCommitDel, strs := keys } callback

/-- Call the callback that waits under a number, if there is one. -/
def answer (s : RedisStore) (commitId : UInt32) (status : Status) : List Reply × RedisStore :=
  match s.pendingRequests.lookup commitId with
  | some callback =>
    ([{ callback := callback, status := status }],
      { s with pendingRequests := s.pendingRequests.erase commitId })
  | none => ([], s)

/-- What `set` does when its proposal was taken or refused. -/
def setProposed (s : RedisStore) (commitId : UInt32) (status : Status) : List Reply × RedisStore :=
  if status.isOk then ([], s) else s.answer commitId status

/-- What `del` does when its proposal was taken or refused. -/
def delProposed (s : RedisStore) (commitId : UInt32) (status : Status) : List Reply × RedisStore :=
  s.answer commitId status

/-- The effect of a command on the keys. A command of an unknown kind is reported. -/
def applyData (kv : KeyValues) (data : RedisCommitData) : ServerResult KeyValues :=
  if data.type = kCommitSet then
    match data.strs with
    | [key, value] => .ok (kv.insert key value)
    | _ => .error .assertion
  else if data.type = kCommitDel then .ok (data.strs.foldl (fun kv key => kv.erase key) kv)
  else .ok kv

/-- The task of `read_commit`. -/
def readCommit (s : RedisStore) (nodeId : ℕ) (entry : Entry) :
    ServerResult (List Reply × RedisStore) :=
  match F.commit.unpack entry.data with
  | none => .ok ([], s)
  | some commit => do
    let kv ← applyData s.keyValues commit.redisData
    let s := { s with keyValues := kv }
    if commit.nodeId.toNat = nodeId then return s.answer commit.commitId .ok else return ([], s)

/-- The task of `get_snapshot`: the data of a snapshot. -/
def getSnapshot (s : RedisStore) : Bytes := F.keyValues.pack s.keyValues

/-- The task of `recover_from_snapshot`. The callback stops at a failure. -/
def recoverFromSnapshot (s : RedisStore) (data : Bytes) : ServerResult RedisStore :=
  if ¬F.isObject data then .error .unpackError
  else
    match F.keyValues.unpack data with
    | some kv => .ok { s with keyValues := kv }
    | none => .error .recoverFromSnapshot

end RedisStore

end RaftCpp
