import RaftCpp.Server.RedisStore
import RaftCpp.Wal.Format

/-!
# The formats of a server in msgpack

What msgpack makes of the data of a server, by the `MSGPACK_DEFINE` lines of `raft-kv/raft/proto.h`,
`raft-kv/wal/wal.h` and `raft-kv/server/redis_store.h`.
-/

namespace RaftCpp

open Msgpack

/-- `std::string`. -/
def strFormat : Format Bytes := strHeader.many byte

/-- `uint8_t`. -/
def uint8Format : Format UInt8 :=
  uint.narrow (fun n => if n < 2^8 then some (UInt8.ofNat n) else none) UInt8.toNat

/-- `uint32_t`. -/
def uint32Format : Format UInt32 :=
  uint.narrow (fun n => if n < 2^32 then some (UInt32.ofNat n) else none) UInt32.toNat

/-- `MSGPACK_DEFINE (id, conf_change_type, node_id, context)` of a configuration change. -/
def confChangeFormat : Format ConfChange :=
  ((uint.pair (uint.pair (uint.pair bin))).via
    (fun p => { id := p.1, confChangeType := p.2.1, nodeId := p.2.2.1, context := p.2.2.2 })
    fun cc => (cc.id, cc.confChangeType, cc.nodeId, cc.context)).tagged (arrayTag 4)

/-- `MSGPACK_DEFINE (nodes, learners)` of a membership. -/
def confStateFormat : Format ConfState :=
  (((arrayHeader.many uint).pair (arrayHeader.many uint)).via
    (fun p => { nodes := p.1, learners := p.2 }) fun cs => (cs.nodes, cs.learners)).tagged (arrayTag 2)

/-- `MSGPACK_DEFINE (conf_state, index, term)` of what a snapshot covers. -/
def snapshotMetadataFormat : Format SnapshotMetadata :=
  ((confStateFormat.pair (uint.pair uint)).via
    (fun p => { confState := p.1, index := p.2.1, term := p.2.2 })
    fun m => (m.confState, m.index, m.term)).tagged (arrayTag 3)

/-- `MSGPACK_DEFINE (data, metadata)` of a snapshot. -/
def snapshotFormat : Format Snapshot :=
  ((bin.pair snapshotMetadataFormat).via (fun p => { data := p.1, metadata := p.2 })
    fun s => (s.data, s.metadata)).tagged (arrayTag 2)

/-- `MSGPACK_DEFINE (type, strs)` of a command. -/
def redisCommitDataFormat : Format RedisCommitData :=
  ((uint8Format.pair (arrayHeader.many strFormat)).via (fun p => { type := p.1, strs := p.2 })
    fun d => (d.type, d.strs)).tagged (arrayTag 2)

/-- `MSGPACK_DEFINE (node_id, commit_id, redis_data)` of a request. -/
def raftCommitFormat : Format RaftCommit :=
  ((uint32Format.pair (uint32Format.pair redisCommitDataFormat)).via
    (fun p => { nodeId := p.1, commitId := p.2.1, redisData := p.2.2 })
    fun c => (c.nodeId, c.commitId, c.redisData)).tagged (arrayTag 3)

/-- `std::unordered_map<std::string, std::string>`. Of two values of a key, the last one counts. -/
def keyValuesFormat : Format KeyValues :=
  (mapHeader.many (strFormat.pair strFormat)).via
    (fun ps => (ps.map fun p => (⟨p.1, p.2⟩ : Sigma fun _ : Bytes => Bytes)).reverse.toAList)
    fun kv => (kv.entries.map fun e => (e.1, e.2)).reverse

/-- The formats of a server. -/
def msgpackFormats : Formats where
  entry := codec entryFormat
  hardState := codec hardStateFormat
  walSnapshot := codec walSnapshotFormat
  snapshot := codec snapshotFormat
  confChange := codec confChangeFormat
  commit := codec raftCommitFormat
  keyValues := codec keyValuesFormat
  isObject := isObject
  crc32 := computeCrc32

/-! ## Reading back -/

/-- A string ends itself. -/
theorem strFormat_selfDelimiting : strFormat.SelfDelimiting :=
  strHeader.many_selfDelimiting byte_selfDelimiting

/-- A byte ends itself. -/
theorem uint8Format_selfDelimiting : uint8Format.SelfDelimiting := by
  refine uint_selfDelimiting.narrow fun b => ?_
  rw [if_pos b.toNat_lt, UInt8.ofNat_toNat]

/-- A 32-bit word ends itself. -/
theorem uint32Format_selfDelimiting : uint32Format.SelfDelimiting := by
  refine uint_selfDelimiting.narrow fun b => ?_
  rw [if_pos b.toNat_lt, UInt32.ofNat_toNat]

/-- A configuration change ends itself. -/
theorem confChangeFormat_selfDelimiting : confChangeFormat.SelfDelimiting :=
  have hfields := uint_selfDelimiting.pair (uint_selfDelimiting.pair bin_selfDelimiting)
  ((uint_selfDelimiting.pair hfields).via fun _ => rfl).tagged _

/-- A membership ends itself. -/
theorem confStateFormat_selfDelimiting : confStateFormat.SelfDelimiting :=
  have hnodes := arrayHeader.many_selfDelimiting uint_selfDelimiting
  ((hnodes.pair hnodes).via fun _ => rfl).tagged _

/-- What a snapshot covers ends itself. -/
theorem snapshotMetadataFormat_selfDelimiting : snapshotMetadataFormat.SelfDelimiting :=
  have hposition := uint_selfDelimiting.pair uint_selfDelimiting
  ((confStateFormat_selfDelimiting.pair hposition).via fun _ => rfl).tagged _

/-- A snapshot ends itself. -/
theorem snapshotFormat_selfDelimiting : snapshotFormat.SelfDelimiting :=
  ((bin_selfDelimiting.pair snapshotMetadataFormat_selfDelimiting).via fun _ => rfl).tagged _

/-- A command ends itself. -/
theorem redisCommitDataFormat_selfDelimiting : redisCommitDataFormat.SelfDelimiting :=
  have hstrs := arrayHeader.many_selfDelimiting strFormat_selfDelimiting
  ((uint8Format_selfDelimiting.pair hstrs).via fun _ => rfl).tagged _

/-- A request ends itself. -/
theorem raftCommitFormat_selfDelimiting : raftCommitFormat.SelfDelimiting :=
  have hcommand := uint32Format_selfDelimiting.pair redisCommitDataFormat_selfDelimiting
  ((uint32Format_selfDelimiting.pair hcommand).via fun _ => rfl).tagged _

/-- The keys with their values end themselves. -/
theorem keyValuesFormat_selfDelimiting : keyValuesFormat.SelfDelimiting := by
  have hpair := strFormat_selfDelimiting.pair strFormat_selfDelimiting
  refine (mapHeader.many_selfDelimiting hpair).via fun kv => ?_
  rw [List.map_reverse, List.reverse_reverse, List.map_map]
  show (kv.entries.map id).toAList = kv
  rw [List.map_id, kv.toAList_entries]

/-- A request to set a key, on the wire. -/
example : msgpackFormats.commit.pack { nodeId := 1, commitId := 0, redisData := { type := kCommitSet, strs :=
    [[107], [118]] } } = [0x93, 1, 0, 0x92, 0, 0x92, 0xa1, 107, 0xa1, 118] := by decide

end RaftCpp
