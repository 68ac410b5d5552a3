import Mathlib.Data.Finset.Dedup
import Mathlib.Data.Finset.Lattice.Basic
import Mathlib.Logic.Function.Basic
import Mathlib.Logic.Relation
import RaftCpp.Raft.Node

/-!
# Clusters

A cluster is a set of nodes and the messages that they have sent. Its events are the ticks of a node, the
messages that the application steps into a node, the deliveries of messages, and the rounds of
`pull_ready_events` in which a node persists what is new and advances. A message that was sent stays in
the network, so that it can be delivered late, more than once, or never. The membership is fixed, no node
restarts, and nothing is compacted.
-/

namespace RaftCpp

/-- How the nodes come to know the members: from their configurations, or from the entries that they
start their logs with. -/
inductive Bootstrap
  /-- The members are configured. -/
  | config (learners : List ℕ)
  /-- The voters are added by entries with the given contexts. -/
  | entries (serialize : ConfChange → Bytes) (context : ℕ → Bytes)

/-- The members of a cluster and the parameters of its nodes. -/
structure Setup where
  /-- The voters. -/
  voters : List ℕ
  /-- How the nodes come to know the members. -/
  bootstrap : Bootstrap
  /-- The parameters of each node. -/
  config : ℕ → Config

namespace Setup

/-- The learners. -/
def learners (S : Setup) : List ℕ :=
  match S.bootstrap with
  | .config learners => learners
  | .entries _ _ => []

/-- The nodes of the cluster. -/
def members (S : Setup) : Finset ℕ := S.voters.toFinset ∪ S.learners.toFinset

/-- The configuration of a node over an empty storage. -/
def nodeConfig (S : Setup) (i : ℕ) : Config :=
  { S.config i with
    id := i
    peers := match S.bootstrap with
      | .config _ => S.voters
      | .entries _ _ => []
    learners := S.learners
    storage := .empty
    applied := 0 }

/-- The start of a node, whose configuration has to be valid. -/
def boot (S : Setup) (i : ℕ) : Result RawNode :=
  match (S.nodeConfig i).validate with
  | (.ok, c) =>
    match S.bootstrap with
    | .config _ => RawNode.restartNode c
    | .entries serialize context =>
      RawNode.startNode serialize c (S.voters.map fun v => (v, context v))
  | _ => .error .assertion

end Setup

/-- The nodes, and the messages that they have sent. -/
structure Cluster where
  /-- The nodes. -/
  nodes : ℕ → RawNode
  /-- The messages sent so far. -/
  net : List Message := []

/-- The message types that the application and the clock step into a node. -/
def isInputType (t : MessageType) : Bool :=
  t == .msgHup || t == .msgBeat || t == .msgProp || t == .msgUnreachable || t == .msgSnapStatus ||
    t == .msgCheckQuorum || t == .msgTransferLeader || t == .msgReadIndex

/-- What can happen in a cluster. -/
inductive Event
  /-- A tick of a node's clock. -/
  | tick (i : ℕ)
  /-- A message of the application to its node. -/
  | input (i : ℕ) (m : Message)
  /-- The delivery of a message. -/
  | deliver (m : Message)
  /-- A round of `pull_ready_events`. -/
  | persist (i : ℕ)
deriving DecidableEq, Repr

/-- A round of `pull_ready_events`, as far as it changes the node: what is new is written to the
storage, and the node advances. No snapshot is triggered, and no configuration change is applied. -/
def RawNode.pullReadyEvents (n : RawNode) : Result RawNode := do
  if ¬ n.hasReady then return n
  else
    let (rd, n) ← n.ready
    if ¬ rd.containsUpdates then return n
    else
      let storage := n.raft.raftLog.storage
      let storage := if rd.snapshot.isEmpty then storage else (storage.applySnapshot rd.snapshot).2
      let storage ← storage.append rd.entries
      let l := { n.raft.raftLog with storage := storage }
      return { n with raft := { n.raft with raftLog := l } }.advance rd

namespace Event

/-- The node that an event happens at. -/
def node : Event → ℕ
  | tick i => i
  | input i _ => i
  | deliver m => m.toId
  | persist i => i

/-- What the node does. -/
def run : Event → RawNode → Result RawNode
  | tick _, n => n.tick
  | input _ m, n | deliver m, n => do
    let (_, n) ← n.stepRaft m
    return n
  | persist _, n => n.pullReadyEvents

/-- When an event can happen. -/
def Enabled (S : Setup) (c : Cluster) (e : Event) : Prop :=
  e.node ∈ S.members ∧
    match e with
    | input _ m => m.term = 0 ∧ isInputType m.type
    | deliver m => m ∈ c.net
    | _ => True

instance (S : Setup) (c : Cluster) (e : Event) : Decidable (e.Enabled S c) :=
  match e with
  | tick i => inferInstanceAs (Decidable (i ∈ S.members ∧ True))
  | input i m => inferInstanceAs (Decidable (i ∈ S.members ∧ m.term = 0 ∧ isInputType m.type))
  | deliver m => inferInstanceAs (Decidable (m.toId ∈ S.members ∧ m ∈ c.net))
  | persist i => inferInstanceAs (Decidable (i ∈ S.members ∧ True))

end Event

namespace Cluster

/-- An event at its node: the messages of the node go to the network. -/
def exec (c : Cluster) (e : Event) : Result Cluster := do
  let n ← e.run (c.nodes e.node)
  return {
    nodes := Function.update c.nodes e.node { n with raft := { n.raft with msgs := [] } }
    net := c.net ++ n.raft.msgs }

/-- A step of the cluster by an event that the condition admits. -/
def Step (S : Setup) (ok : Cluster → Event → Prop) (c c' : Cluster) : Prop :=
  ∃ e : Event, e.Enabled S c ∧ ok c e ∧ c.exec e = .ok c'

/-- A run of the cluster, all of whose events the condition admits. -/
def Run (S : Setup) (ok : Cluster → Event → Prop) : Cluster → Cluster → Prop :=
  Relation.ReflTransGen (Step S ok)

/-- The clusters that have just started. -/
structure Fresh (S : Setup) (c : Cluster) : Prop where
  /-- No message was sent. -/
  net : c.net = []
  /-- Every node has just started. -/
  nodes : ∀ i ∈ S.members, S.boot i = .ok (c.nodes i)

/-- Play a script: every event has to be enabled and admitted, and no node may fail. -/
def play (S : Setup) (ok : Cluster → Event → Prop) [∀ c e, Decidable (ok c e)] :
    List (Cluster → Event) → Cluster → Option Cluster
  | [], c => some c
  | f :: script, c =>
    if (f c).Enabled S c ∧ ok c (f c) then
      match c.exec (f c) with
      | .ok c' => play S ok script c'
      | .error _ => none
    else none

/-- What is played is a run. -/
theorem run_of_play {S : Setup} {ok : Cluster → Event → Prop} [∀ c e, Decidable (ok c e)]
    {script : List (Cluster → Event)} {c c' : Cluster} (h : play S ok script c = some c') :
    Run S ok c c' := by
  induction script generalizing c with
  | nil =>
    cases h
    exact Relation.ReflTransGen.refl
  | cons f script ih =>
    unfold play at h
    split_ifs at h with hf
    split at h
    · next c₁ hc₁ => exact Relation.ReflTransGen.head ⟨f c, hf.1, hf.2, hc₁⟩ (ih h)
    · cases h

/-- The cluster after a script, if it can be played. -/
def after (S : Setup) (ok : Cluster → Event → Prop) [∀ c e, Decidable (ok c e)]
    (script : List (Cluster → Event)) (c : Cluster) : Cluster := (c.play S ok script).getD c

/-- A script that can be played is a run. -/
theorem run_after {S : Setup} {ok : Cluster → Event → Prop} [∀ c e, Decidable (ok c e)]
    {script : List (Cluster → Event)} {c : Cluster} (h : (c.play S ok script).isSome = true) :
    Run S ok c (c.after S ok script) := by
  obtain ⟨c', hc'⟩ := Option.isSome_iff_exists.mp h
  rw [after, hc']
  exact run_of_play hc'

end Cluster

/-- A node is asked to campaign. -/
def campaignAt (i : ℕ) (_ : Cluster) : Event := .input i { type := .msgHup }

/-- The message at a position of the network is delivered. -/
def deliverAt (k : ℕ) (c : Cluster) : Event := .deliver (c.net.getD k {})

/-- The cluster of the nodes that start; a node whose start fails is left blank. -/
def Setup.fresh (S : Setup) : Cluster where
  nodes i :=
    match S.boot i with
    | .ok n => n
    | .error _ => RawNode.ofRaft (Raft.blank (S.nodeConfig i)) 0

/-- Where every node starts, the cluster has just started. -/
theorem Setup.fresh_spec {S : Setup} (h : ∀ i ∈ S.members, (S.boot i).toBool = true) :
    S.fresh.Fresh S where
  net := rfl
  nodes i hi := by
    have hi := h i hi
    cases hb : S.boot i with
    | ok n => simp only [fresh, hb]
    | error e =>
      rw [hb] at hi
      cases hi

end RaftCpp
