import RaftCpp.Library.Patch
import RaftCpp.Library.BasedLog
import RaftCpp.Library.ExactReader
import RaftCpp.Library.Ring
import RaftCpp.Library.Resp
import RaftCpp.Library.Glob
import RaftCpp.Library.Hex
import RaftCpp.Replication.Guarantees
import RaftCpp.Replication.Handover
import RaftCpp.Replication.Answers
import RaftCpp.Raft.HardState
import RaftCpp.Raft.Handout
import RaftCpp.Raft.Campaigning
import RaftCpp.Raft.Delivery
import RaftCpp.Raft.PreVoting
import RaftCpp.Raft.QuorumCheck
import RaftCpp.Raft.LeaderOnly
import RaftCpp.Raft.Voters
import RaftCpp.Raft.PendingConf
import RaftCpp.Raft.Withheld
import RaftCpp.Raft.Readiness
import RaftCpp.Raft.PlainLog
import RaftCpp.Raft.Accepting
import RaftCpp.Raft.PlainStorage
import RaftCpp.Raft.Persisting
import RaftCpp.Raft.Membership
import RaftCpp.Raft.Hup
import RaftCpp.Raft.ReadQueue
import RaftCpp.Raft.ReadRouting
import RaftCpp.Raft.Carried
import RaftCpp.Raft.Dropped
import RaftCpp.Raft.QuorumIndex
import RaftCpp.Raft.Aside
import RaftCpp.Raft.Roster
import RaftCpp.Raft.Transfer
import RaftCpp.Raft.Replicating
import RaftCpp.Raft.Window
import RaftCpp.Raft.Flow
import RaftCpp.Raft.FlowControl
import RaftCpp.Raft.Uncommitted
import RaftCpp.Raft.EncodedSize
import RaftCpp.Wal.Recovery
import RaftCpp.Wal.Reopening
import RaftCpp.Wal.Snapshotter
import RaftCpp.Wal.Names
import RaftCpp.Wal.Opening
import RaftCpp.Wal.Fallback
import RaftCpp.Server.Session
import RaftCpp.Server.ExactlyOnce
import RaftCpp.Server.Snapshots
import RaftCpp.Server.Kill
import RaftCpp.Server.Requests
import RaftCpp.Server.Replies
import RaftCpp.Server.StringMatch
import RaftCpp.Server.Commands
import RaftCpp.Server.Lives
import RaftCpp.Transport.Peer
import RaftCpp.Transport.RaftServer
import RaftCpp.Transport.Framing
import RaftCpp.Server.Crash
import RaftCpp.Library.Replicas
import RaftCpp.Replication.Hosting
import RaftCpp.Service.Network
import RaftCpp.Service.Refinement
