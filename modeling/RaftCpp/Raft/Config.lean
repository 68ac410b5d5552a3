import RaftCpp.Raft.ReadOnly
import RaftCpp.Raft.Storage

/-!
# The configuration of a node

`Config` of `raft-kv/raft/config.h` and `raft-kv/raft/config.cpp`, and the random device of
`raft-kv/common/random_device.h`.
-/

namespace RaftCpp

/-- The source of randomness: the numbers that the device will produce, and how many it has
produced. -/
structure RandomDevice where
  /-- The numbers. -/
  draws : ℕ → ℕ
  /-- How many are used up. -/
  pos : ℕ := 0

/-- `gen`: the next number of the uniform distribution on `[0, max]`. -/
def RandomDevice.gen (d : RandomDevice) (max : ℕ) : ℕ × RandomDevice :=
  (d.draws d.pos % (max + 1), { d with pos := d.pos + 1 })

/-- The generated number lies in the range of the distribution. -/
theorem RandomDevice.gen_le (d : RandomDevice) (max : ℕ) : (d.gen max).1 ≤ max :=
  Nat.lt_succ_iff.mp (Nat.mod_lt _ (Nat.succ_pos max))

/-- The parameters of a node. -/
structure Config where
  /-- The node's own identity. -/
  id : ℕ
  /-- The voters, when they are not in the storage's snapshot. -/
  peers : List ℕ := []
  /-- The learners, when they are not in the storage's snapshot. -/
  learners : List ℕ := []
  /-- The number of ticks between elections. -/
  electionTick : ℕ
  /-- The number of ticks between heartbeats. -/
  heartbeatTick : ℕ
  /-- The storage. -/
  storage : MemoryStorage := .empty
  /-- The last index applied before a restart. -/
  applied : ℕ := 0
  /-- The limit on the size of the entries in an append message. -/
  maxSizePerMsg : ℕ
  /-- The limit on the size of the entries handed out for application at once. -/
  maxCommittedSizePerReady : ℕ := 0
  /-- The limit on the size of a leader's uncommitted entries. -/
  maxUncommittedEntriesSize : ℕ := 0
  /-- The limit on the number of append messages on their way to a peer. -/
  maxInflightMsgs : ℕ
  /-- Whether a leader steps down when it does not hear from a quorum. -/
  checkQuorum : Bool := false
  /-- Whether an election is preceded by a poll. -/
  preVote : Bool := false
  /-- How reads are confirmed. -/
  readOnlyOption : ReadOnlyOption := .safe
  /-- Whether followers drop proposals instead of forwarding them. -/
  disableProposalForwarding : Bool := false
  /-- The node's random device. -/
  randomDevice : RandomDevice := { draws := fun _ => 0 }

/-- `validate`: reject unusable parameters, and fill in the defaults. -/
def Config.validate (c : Config) : Status × Config :=
  if c.id = 0 then (.invalidArgument "cannot use none as id", c)
  else if c.heartbeatTick ≤ 0 then
    (.invalidArgument "heartbeat tick must be greater than 0", c)
  else if c.electionTick ≤ c.heartbeatTick then
    (.invalidArgument "election tick must be greater than heartbeat tick", c)
  else
    let c := if c.maxUncommittedEntriesSize = 0 then
      { c with maxUncommittedEntriesSize := 2^64 - 1 } else c
    let c := if c.maxCommittedSizePerReady = 0 then
      { c with maxCommittedSizePerReady := c.maxSizePerMsg } else c
    if c.maxInflightMsgs ≤ 0 then
      (.invalidArgument "max inflight messages must be greater than 0", c)
    else if c.readOnlyOption = .leaseBased ∧ ¬ c.checkQuorum then
      (.invalidArgument
        "check_quorum must be enabled when read_only_option is ReadOnlyLeaseBased", c)
    else (.ok, c)

end RaftCpp
