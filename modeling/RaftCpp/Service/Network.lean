import RaftCpp.Replication.Start
import RaftCpp.Server.Crash

/-!
# Servers and the network between them

A service is a cluster of servers, as `main` of `raft-kv/raft-kv.cpp` starts them, and the messages that their
threads have handed to the transport. A message that was sent stays in the network, so that it can be delivered
late, more than once, or never. Between the deliveries, the timers of the servers expire, their clients set and
delete keys, and each of their two threads goes on at its own pace. No server restarts.
-/

namespace RaftCpp

open Outcome

/-- The servers of a cluster, and the messages that they have sent. -/
structure Service where
  /-- The servers. -/
  servers : ℕ → Server
  /-- The messages sent so far. -/
  net : List Message := []

/-- Something that happens at a server. -/
structure ServiceEvent where
  /-- The server. -/
  node : ℕ
  /-- What happens there. -/
  event : ServerEvent
deriving DecidableEq

namespace Service

variable (F : Formats)

/-- An event at its server: what the thread of its node has sent is in the network. What it has sent in an
earlier turn is there already. -/
def exec (c : Service) (e : ServiceEvent) : ServerResult Service := do
  let s ← (c.servers e.node).handle F e.event
  return {
    servers := Function.update c.servers e.node s
    net := c.net ++ s.node.calls.flatMap Call.sent }

/-- The runs of a service. -/
abbrev Run : Service → List (Turn Service ServiceEvent) → Service → Prop := Trace (exec F)

/-- The node of a server. -/
def raft (c : Service) (i : ℕ) : Raft := (c.servers i).node.node.raft

/-- When an event can happen in a service of so many servers: what is delivered was sent to the server. -/
def Enabled (peers : ℕ) (c : Service) (e : ServiceEvent) : Prop :=
  (1 ≤ e.node ∧ e.node ≤ peers) ∧
    match e.event with
    | .process m => m ∈ c.net ∧ m.toId = e.node
    | _ => True

/-- The events that do not make a candidate count the answer to a poll as a vote, and that do not hand out so
many entries that a snapshot is due. -/
def Clean (c : Service) (e : ServiceEvent) : Prop :=
  match e.event with
  | .process m => ¬(c.raft e.node).strayPreVote m
  | .pull => (c.raft e.node).raftLog.lastIndex ≤ defaultSnapCount
  | _ => True

/-- What happens in a run. -/
def Proper (peers : ℕ) (t : Turn Service ServiceEvent) : Prop :=
  Enabled peers t.before t.event ∧ Clean t.before t.event

instance (peers : ℕ) (c : Service) (e : ServiceEvent) : Decidable (Enabled peers c e) := by
  unfold Enabled
  split
  · infer_instance
  · infer_instance

instance (c : Service) (e : ServiceEvent) : Decidable (Clean c e) := by
  unfold Clean
  split
  · infer_instance
  · infer_instance
  · infer_instance

instance (peers : ℕ) (t : Turn Service ServiceEvent) : Decidable (Proper peers t) :=
  inferInstanceAs (Decidable (_ ∧ _))

/-- The services whose servers have just started, without files. -/
structure Fresh (peers : ℕ) (device : ℕ → RandomDevice) (c : Service) : Prop where
  /-- Nothing was sent. -/
  net : c.net = []
  /-- The servers have started. -/
  servers : ∀ i, 1 ≤ i → i ≤ peers → Server.start F i peers (device i) {} = .ok (c.servers i)

/-! ## The cluster behind it -/

/-- The members of the cluster, and the parameters of its nodes. -/
def setup (peers : ℕ) (device : ℕ → RandomDevice) : Setup where
  voters := (List.range peers).map fun i => i + 1
  bootstrap := .entries F.confChange.pack fun _ => []
  config i := RaftNode.config i .empty (device i)

/-- The nodes of the servers. -/
def cluster (c : Service) : Cluster where
  nodes i := (c.servers i).node.node
  net := c.net

variable {F} {peers : ℕ} {device : ℕ → RandomDevice} {c : Service}

/-- The members are the servers. -/
theorem mem_members {i : ℕ} : i ∈ (setup F peers device).members ↔ 1 ≤ i ∧ i ≤ peers := by
  unfold Setup.members Setup.learners setup
  simp only [List.toFinset_nil, Finset.union_empty, List.mem_toFinset, List.mem_map, List.mem_range]
  constructor
  · rintro ⟨k, hk, rfl⟩
    omega
  · rintro ⟨hpos, hle⟩
    exact ⟨i - 1, by omega, by omega⟩

/-- The storage that a server starts with is empty. -/
theorem replayWAL_empty (hF : F.wal.Lawful) (hcreate : (WALRecord.snapshot {}).Fits F.wal) :
    Ensures (RaftNode.replayWAL F {}) fun r => r.storage = .empty := by
  have hjournal : RaftNode.Journal F (fun _ => 0) [.snapshot {}] [] := RaftNode.Journal.created hcreate
  obtain ⟨wal, hread, -⟩ := @RaftNode.Journal.readAll_eq F (fun _ => 0) _ [] hF hjournal.first hjournal.fits
    hjournal.positions hjournal.loaded
  rw [RaftNode.recordedDisk, ← WAL.create_eq] at hread
  have hread' : (WAL.openLog (WAL.create F.wal) { index := 0, term := 0 }).readAll F.wal =
      .ok ({}, [], wal) := hread
  unfold RaftNode.replayWAL
  refine Ensures.bind (P := fun p => p = ({}, [], wal)) (fun p hp => ?_) ?_
  · exact Except.ok.inj (hp.symm.trans hread')
  · rintro _ rfl
    exact Ensures.pure rfl

/-- The node of a server that has just started is one of the cluster, over an empty storage. -/
theorem start_boot (hF : F.wal.Lawful) (hcreate : (WALRecord.snapshot {}).Fits F.wal) {i : ℕ} {s : Server}
    (h : Server.start F i peers (device i) {} = .ok s) :
    (setup F peers device).boot i = .ok s.node.node ∧ s.node.node.storage = .empty := by
  unfold Server.start at h
  obtain ⟨⟨n, data⟩, hn, h⟩ := bind_eq_ok.mp h
  obtain ⟨store, -, h⟩ := bind_eq_ok.mp h
  cases h
  unfold RaftNode.start at hn
  obtain ⟨r, hr, hn⟩ := bind_eq_ok.mp hn
  have hempty := replayWAL_empty hF hcreate r (ofRaft_eq_ok.mp hr)
  rw [hempty] at hn
  have hmade : ∃ cfg node, (RaftNode.config i .empty (device i)).validate = (.ok, cfg) ∧
      RaftNode.makeNode F false peers cfg = .ok node ∧ n.node = node := by
    split at hn
    · next cfg hvalid =>
      obtain ⟨node, hnode, hn⟩ := bind_eq_ok.mp hn
      cases hn
      exact ⟨cfg, node, hvalid, ofRaft_eq_ok.mp hnode, rfl⟩
    · cases hn
  obtain ⟨cfg, node, hvalid, hnode, rfl⟩ := hmade
  constructor
  · have hconfig : (setup F peers device).nodeConfig i = RaftNode.config i .empty (device i) := rfl
    have hvoters : (setup F peers device).voters.map (fun v => (v, ([] : Bytes))) =
        (List.range peers).map fun i => (i + 1, []) := by
      show ((List.range peers).map _).map _ = _
      rw [List.map_map]
      rfl
    unfold Setup.boot
    rw [hconfig, hvalid]
    show RawNode.startNode F.confChange.pack cfg ((setup F peers device).voters.map fun v => (v, [])) = _
    rw [hvoters]
    exact hnode
  · -- Neither the validation nor the constructor changes the storage.
    obtain ⟨-, a, b, rfl⟩ := Config.validate_spec hvalid
    obtain ⟨-, hstorage, -⟩ := RaftNode.makeNode_spec MemoryStorage.empty_consistent rfl _ _ _ hnode
    exact hstorage

/-! ## Three servers -/

/-- Where the random numbers come from in the examples. -/
def zeroDevice (_ : ℕ) : RandomDevice := { draws := fun _ => 0 }

/-- Three servers that start without files. -/
def startedTrio : ServerResult Service := do
  let s₁ ← Server.start msgpackFormats 1 3 (zeroDevice 1) {}
  let s₂ ← Server.start msgpackFormats 2 3 (zeroDevice 2) {}
  let s₃ ← Server.start msgpackFormats 3 3 (zeroDevice 3) {}
  return { servers := fun i => if i = 1 then s₁ else if i = 2 then s₂ else s₃ }

/-- The three have just started. -/
theorem startedTrio_fresh (h : startedTrio = .ok c) : Fresh msgpackFormats 3 zeroDevice c := by
  unfold startedTrio at h
  obtain ⟨s₁, h₁, h⟩ := bind_eq_ok.mp h
  obtain ⟨s₂, h₂, h⟩ := bind_eq_ok.mp h
  obtain ⟨s₃, h₃, h⟩ := bind_eq_ok.mp h
  cases h
  refine ⟨rfl, fun i hpos hle => ?_⟩
  obtain rfl | rfl | rfl : i = 1 ∨ i = 2 ∨ i = 3 := by omega
  · exact h₁
  · exact h₂
  · exact h₃

/-- An event at a server. -/
def happensAt (i : ℕ) (e : ServerEvent) (_ : Service) : ServiceEvent := ⟨i, e⟩

/-- The message at a position of the network reaches its server. -/
def delivers (k : ℕ) (c : Service) : ServiceEvent :=
  let m := c.net.getD k {}
  ⟨m.toId, .process m⟩

/-- The first server wins a poll and an election with the vote of the third one. -/
def elects : List (Service → ServiceEvent) :=
  [happensAt 1 .pull] ++ List.replicate 11 (happensAt 1 .tick) ++
    [happensAt 1 .pull, delivers 0, happensAt 3 .pull, delivers 2, happensAt 1 .pull, delivers 3,
      happensAt 3 .pull, delivers 5, happensAt 1 .pull]

/-- The leader commits its first entry and the command of a client with the third server, and its store comes
to the command. -/
def commits : List (Service → ServiceEvent) :=
  [delivers 6, happensAt 3 .pull, delivers 8, happensAt 1 (.set [107] [118] 7), happensAt 1 .propose,
    happensAt 1 .pull, delivers 9, delivers 10, happensAt 3 .pull, delivers 12, happensAt 1 .pull,
    happensAt 1 .task, happensAt 1 .task]

end Service

end RaftCpp
