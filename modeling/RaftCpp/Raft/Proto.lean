import Mathlib.Algebra.Group.Nat.Defs

/-!
# Messages, log entries, and hard states

The data that the nodes exchange and persist, from `raft-kv/raft/proto.h`, `raft-kv/raft/proto.cpp`,
and `raft-kv/common/status.h`. Terms and log indices are natural numbers: each grows by one at a time
from zero, so that the 64-bit counters of the source do not wrap in a run. A difference of two of
them can fall below zero in a corner case, and wraps there as `sub64` does.
-/

namespace RaftCpp

/-- A byte string, `std::vector<uint8_t>` or `std::string` in the source. -/
abbrev Bytes := List UInt8

/-- The difference of two 64-bit words, which wraps below zero. -/
def sub64 (a b : ℕ) : ℕ := if b ≤ a then a - b else a + 2^64 - b

/-- A difference that does not fall below zero is the difference of the numbers. -/
@[simp] theorem sub64_of_le {a b : ℕ} (h : b ≤ a) : sub64 a b = a - b := by
  simp [sub64, h]

/-- The result of an operation that reports its failure to the caller, `Status` in the source. -/
inductive Status
  | ok
  | notFound (msg : String)
  | notSupported (msg : String)
  | invalidArgument (msg : String)
  | ioError (msg : String)
deriving DecidableEq, Repr

/-- Whether the status is a success. -/
def Status.isOk : Status → Bool
  | .ok => true
  | _ => false

/-- Only one status is a success. -/
theorem Status.isOk_iff {s : Status} : s.isOk = true ↔ s = .ok := by
  cases s <;> simp [isOk]

/-- The places at which the code stops: a `LOG_FATAL`, which throws, a failed `assert`, a type error
that msgpack throws, or an access outside a container, through a null or a dangling pointer, or with the
iterator of another container, which C++ leaves undefined. `outOfFuel` is a loop that went on for longer than
the model follows it. -/
inductive Fatal
  | commitToOutOfRange (toCommit lastIndex : ℕ)
  | conflictWithCommitted (conflict committed : ℕ)
  | appendOutOfRange (after committed : ℕ)
  | unstableSliceOutOfBound
  | sliceOutOfBound
  | storageEntriesOutOfBound
  | storageMissingEntry
  | compactOutOfBound
  | snapshotOutOfBound
  | unappliedEntries
  | nextEntries
  | leaderToCandidate
  | leaderToPreCandidate
  | followerToLeader
  | ownProgressMissing
  | emptyEntryDropped
  | emptyProposal
  | snapshotUnavailable
  | emptySnapshot
  | unhandledProgressState
  | fullInflights
  | termNotSet
  | termSet
  | loadStateOutOfRange (commit committed lastIndex : ℕ)
  | peersAndConfState
  | learnerIsPeer (id : ℕ)
  | voterToLearner (id : ℕ)
  | pendingReadMissing
  | outOfFuel
  | notVoteMessage
  | invalidMessageType
  | invalidEntryType
  | invalidConfChangeType
  | walSnapshotMismatch
  | walCrcType
  | walRecordType (type : UInt8)
  | walSnapshotNotFound
  | typeError
  | assertion
  | outOfRange
  | nullPointer
  | foreignIterator
  | danglingPointer
deriving DecidableEq, Repr

/-- A computation of the code that may stop. -/
abbrev Result (α : Type) := Except Fatal α

/-- The element at an index of a vector; outside of the vector the access is undefined. -/
def elemAt {α : Type} (xs : List α) (i : ℕ) : Result α :=
  match xs[i]? with
  | some x => .ok x
  | none => .error .outOfRange

/-- `MessageType`; `other` is a byte that names none of the nineteen types. -/
inductive MessageType
  | msgHup
  | msgBeat
  | msgProp
  | msgApp
  | msgAppResp
  | msgVote
  | msgVoteResp
  | msgSnap
  | msgHeartbeat
  | msgHeartbeatResp
  | msgUnreachable
  | msgSnapStatus
  | msgCheckQuorum
  | msgTransferLeader
  | msgTimeoutNow
  | msgReadIndex
  | msgReadIndexResp
  | msgPreVote
  | msgPreVoteResp
  | other (code : UInt8)
deriving DecidableEq, Repr

/-- `msg_type_to_string` stops at a byte that names no type. Its result only goes to the log. -/
def msgTypeToString : MessageType → Result Unit
  | .other _ => .error .invalidMessageType
  | _ => .ok ()

/-- `EntryType`; `other` is a byte that is neither of the two types. -/
inductive EntryType
  | entryNormal
  | entryConfChange
  | other (code : UInt8)
deriving DecidableEq, Repr

/-- The byte of an entry type. -/
def EntryType.code : EntryType → ℕ
  | .entryNormal => 0
  | .entryConfChange => 1
  | .other code => code.toNat

/-- `entry_type_to_string` stops at a byte that is neither type. Its result only goes to the log. -/
def entryTypeToString : EntryType → Result Unit
  | .other _ => .error .invalidEntryType
  | _ => .ok ()

/-- An entry of the replicated log. -/
structure Entry where
  /-- What the entry carries. -/
  type : EntryType := .entryNormal
  /-- The term of the leader that created the entry. -/
  term : ℕ := 0
  /-- The position of the entry in the log. -/
  index : ℕ := 0
  /-- The command, or the serialized configuration change. -/
  data : Bytes := []
deriving DecidableEq, Repr

/-- The encoded size of a byte: a positive fixnum or an unsigned 8. -/
def u8SerializeSize (d : ℕ) : ℕ := if d < 2^7 then 1 else 2

/-- The encoded size of a 64-bit number. -/
def u64SerializeSize (d : ℕ) : ℕ :=
  if d < 2^8 then
    if d < 2^7 then 1 else 2
  else if d < 2^16 then 3
  else if d < 2^32 then 5
  else 9

/-- The encoded size of binary data of a length below `2^32`. -/
def dataSerializeSize (len : ℕ) : ℕ :=
  if len ≤ 2^8 - 1 then 2 + len
  else if len ≤ 2^16 - 1 then 3 + len
  else 5 + len

/-- The encoded size of an entry, in 32-bit arithmetic. -/
def Entry.serializeSize (e : Entry) : ℕ :=
  (1 + u8SerializeSize e.type.code + u64SerializeSize e.term + u64SerializeSize e.index +
    dataSerializeSize (e.data.length % 2^32)) % 2^32

/-- The size of an entry's data, in 32 bits. -/
def Entry.payloadSize (e : Entry) : ℕ := e.data.length % 2^32

/-- The membership that a snapshot carries. -/
structure ConfState where
  /-- The voters. -/
  nodes : List ℕ := []
  /-- The learners. -/
  learners : List ℕ := []
deriving DecidableEq, Repr

/-- The position of a snapshot in the log, and the membership at it. -/
structure SnapshotMetadata where
  /-- The membership. -/
  confState : ConfState := {}
  /-- The index of the last entry that the snapshot covers. -/
  index : ℕ := 0
  /-- The term of that entry. -/
  term : ℕ := 0
deriving DecidableEq, Repr

/-- A snapshot of the state machine. -/
structure Snapshot where
  /-- The state machine's serialized state. -/
  data : Bytes := []
  /-- What the snapshot covers. -/
  metadata : SnapshotMetadata := {}
deriving DecidableEq, Repr

/-- Whether the snapshot covers nothing. -/
def Snapshot.isEmpty (s : Snapshot) : Bool := s.metadata.index == 0

/-- A message between nodes, or from a node to itself. -/
structure Message where
  /-- What the message asks or answers. -/
  type : MessageType := .msgHup
  /-- The addressee. -/
  toId : ℕ := 0
  /-- The sender. -/
  fromId : ℕ := 0
  /-- The sender's term, or zero in a message that carries none. -/
  term : ℕ := 0
  /-- The term of the entry at `index` of the sender's log. -/
  logTerm : ℕ := 0
  /-- A log index whose meaning depends on the type. -/
  index : ℕ := 0
  /-- Log entries. -/
  entries : List Entry := []
  /-- The sender's commit index, or the part of it that the addressee may use. -/
  commit : ℕ := 0
  /-- A snapshot of the state machine. -/
  snapshot : Snapshot := {}
  /-- Whether the answer is a refusal. -/
  reject : Bool := false
  /-- The last index of the log of a follower that refuses an append. -/
  rejectHint : ℕ := 0
  /-- The kind of a campaign, or the context of a read request. -/
  context : Bytes := []
deriving DecidableEq, Repr

/-- Whether the message is one that a node only sends to itself. -/
def Message.isLocalMsg (m : Message) : Bool :=
  m.type == .msgHup || m.type == .msgBeat || m.type == .msgUnreachable ||
    m.type == .msgSnapStatus || m.type == .msgCheckQuorum

/-- Whether the message answers a message of the addressee. -/
def Message.isResponseMsg (m : Message) : Bool :=
  m.type == .msgAppResp || m.type == .msgVoteResp || m.type == .msgHeartbeatResp ||
    m.type == .msgUnreachable || m.type == .msgPreVoteResp

/-- The part of a node's state that has to survive a restart. -/
structure HardState where
  /-- The term. -/
  term : ℕ := 0
  /-- The node voted for in the term, or zero. -/
  vote : ℕ := 0
  /-- The commit index. -/
  commit : ℕ := 0
deriving DecidableEq, Repr

/-- Whether the hard state is the one of a node that has not started. -/
def HardState.isEmptyState (hs : HardState) : Bool :=
  hs.term == 0 && hs.vote == 0 && hs.commit == 0

/-- `ConfChangeAddNode`. -/
def confChangeAddNode : ℕ := 0

/-- `ConfChangeRemoveNode`. -/
def confChangeRemoveNode : ℕ := 1

/-- `ConfChangeUpdateNode`. -/
def confChangeUpdateNode : ℕ := 2

/-- `ConfChangeAddLearnerNode`. -/
def confChangeAddLearnerNode : ℕ := 3

/-- A change of the membership. -/
structure ConfChange where
  /-- The identity of the change. -/
  id : ℕ := 0
  /-- One of the four kinds. -/
  confChangeType : ℕ := 0
  /-- The node that the change is about. -/
  nodeId : ℕ := 0
  /-- The address of the node. -/
  context : Bytes := []
deriving DecidableEq, Repr

/-- `entry_limit_size`, past its first entry: keep entries as long as the sum of the sizes, in 64-bit
arithmetic, stays within the limit. -/
def entryLimitSizeFrom (maxSize : ℕ) : ℕ → List Entry → List Entry
  | _, [] => []
  | size, e :: es =>
    let size := (size + e.serializeSize) % 2^64
    if size > maxSize then [] else e :: entryLimitSizeFrom maxSize size es

/-- `entry_limit_size`: the longest prefix within the size limit, but at least one entry. -/
def entryLimitSize (maxSize : ℕ) : List Entry → List Entry
  | [] => []
  | e :: es => e :: entryLimitSizeFrom maxSize e.serializeSize es

/-- Limiting the size keeps a prefix. -/
theorem entryLimitSizeFrom_isPrefix (maxSize : ℕ) :
    ∀ (size : ℕ) (es : List Entry), entryLimitSizeFrom maxSize size es <+: es
  | _, [] => List.prefix_rfl
  | size, e :: es => by
    unfold entryLimitSizeFrom
    dsimp only
    split
    · exact List.nil_prefix
    · exact List.cons_prefix_cons.mpr ⟨rfl, entryLimitSizeFrom_isPrefix maxSize _ es⟩

/-- Limiting the size keeps a prefix. -/
theorem entryLimitSize_isPrefix (maxSize : ℕ) (es : List Entry) : entryLimitSize maxSize es <+: es := by
  cases es with
  | nil => exact List.prefix_rfl
  | cons e es => exact List.cons_prefix_cons.mpr ⟨rfl, entryLimitSizeFrom_isPrefix maxSize _ es⟩

/-- The largest limit keeps all of the entries. -/
theorem entryLimitSizeFrom_unlimited :
    ∀ (size : ℕ) (es : List Entry), entryLimitSizeFrom (2^64 - 1) size es = es
  | _, [] => rfl
  | size, e :: es => by
    have hlt := Nat.mod_lt (size + e.serializeSize) (Nat.two_pow_pos 64)
    unfold entryLimitSizeFrom
    dsimp only
    rw [if_neg (by omega), entryLimitSizeFrom_unlimited]

/-- The largest limit keeps all of the entries. -/
theorem entryLimitSize_unlimited (es : List Entry) : entryLimitSize (2^64 - 1) es = es := by
  cases es with
  | nil => rfl
  | cons e es => rw [entryLimitSize, entryLimitSizeFrom_unlimited]

/-- Limiting the size keeps at least one entry. -/
theorem entryLimitSize_eq_nil {maxSize : ℕ} {es : List Entry} :
    entryLimitSize maxSize es = [] ↔ es = [] := by
  cases es <;> simp [entryLimitSize]

/-- `vote_resp_msg_type`: the type that answers a request for a vote. -/
def voteRespMsgType : MessageType → Result MessageType
  | .msgVote => .ok .msgVoteResp
  | .msgPreVote => .ok .msgPreVoteResp
  | _ => .error .notVoteMessage

/-- `is_must_sync`: whether the hard state and the number of new entries require a synchronous
write. -/
def isMustSync (st prevst : HardState) (entsnum : ℕ) : Bool :=
  entsnum != 0 || st.vote != prevst.vote || st.term != prevst.term

end RaftCpp
