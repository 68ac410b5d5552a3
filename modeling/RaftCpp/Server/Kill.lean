import RaftCpp.Server.ExactlyOnce
import RaftCpp.Wal.Reopening

/-!
# What a kill leaves

A node writes its votes and its entries before it sends the messages that promise them. The bytes go to
`fwrite`, and nothing passes them on to the operating system while the process runs, so that a kill leaves
the write-ahead log as it was when the node opened it.
-/

namespace RaftCpp

open Outcome

/-- A vote is granted. -/
def Message.GrantsVote (m : Message) : Prop := m.type = .msgVoteResp ∧ m.reject = false

/-- The log is acknowledged up to the message's index. -/
def Message.Acknowledges (m : Message) : Prop := m.type = .msgAppResp ∧ m.reject = false

instance (m : Message) : Decidable m.GrantsVote := inferInstanceAs (Decidable (_ ∧ _))

instance (m : Message) : Decidable m.Acknowledges := inferInstanceAs (Decidable (_ ∧ _))

namespace RaftNode

variable {F : Formats} {n n₀ : RaftNode} {ts : List (Turn RaftNode RaftNodeEvent)}

/-- The files that are left when the process is killed. -/
def killed (n : RaftNode) : Disk := { wal := some n.wal.file.kill, snapFiles := n.snapFiles }

/-- The messages that are handed to the transport in a step. -/
def sent (t : Turn RaftNode RaftNodeEvent) : List Message := t.after.calls.flatMap Call.sent

/-- What `read_all` finds in the write-ahead log of the files: the hard state, and the entries behind the last
snapshot. -/
def found (F : Formats) (disk : Disk) : Result (HardState × List (Option Entry)) :=
  ((openedWAL F disk).readAll F.wal).map fun p => (p.1, p.2.1)

/-- What a message promises is found in the files: the vote in the hard state, or a later term, and the
entry of the log at the acknowledged index among the entries, or a snapshot behind it. -/
structure Kept (F : Formats) (disk : Disk) (l : RaftLog) (m : Message) : Prop where
  /-- The vote. -/
  vote : m.GrantsVote → Returns (found F disk) fun p =>
    m.term < p.1.term ∨ m.term = p.1.term ∧ p.1.vote = m.toId
  /-- The acknowledged index. -/
  ack : m.Acknowledges → Returns (found F disk) fun p =>
    m.index ≤ (loadedSnapshot F disk).metadata.index ∨
      ∃ e ∈ l.entryAt m.index, p.2[m.index - (loadedSnapshot F disk).metadata.index - 1]? = some (some e)

/-- The promises of a run are kept by the files. -/
def PromisesKept (F : Formats) (disk : Disk) (ts : List (Turn RaftNode RaftNodeEvent)) : Prop :=
  ∀ t ∈ ts, ∀ m ∈ sent t, Kept F disk t.before.settled.raft.raftLog m

/-! ## The file of the write-ahead log -/

/-- Over a run, the operating system's file stays as it was. -/
theorem run_content (hrun : Run F n₀ ts n) : n.wal.file.content = n₀.wal.file.content :=
  (hrun.invariant (P := fun n : RaftNode => n.wal.file.content = n₀.wal.file.content) (Q := fun _ => True)
    (fun t ht _ hs => (handle_keeps t.before t.event _ ht).content.trans hs) (fun _ _ => trivial) rfl).2

/-- The log of a node that was just started is what `read_all` has left of its file. -/
theorem start_wal {id peers : ℕ} {device : RandomDevice} {disk : Disk} {data : Bytes}
    (h : start F id peers device disk = .ok (n, data)) :
    ∃ hs ents, (openedWAL F disk).readAll F.wal = .ok (hs, ents, n.wal) := by
  unfold start at h
  obtain ⟨r, hr, h⟩ := bind_eq_ok.mp h
  obtain ⟨hs, ents, hread, -⟩ := replayWAL_spec disk r (ofRaft_eq_ok.mp hr)
  refine ⟨hs, ents.map some, ?_⟩
  split at h
  · obtain ⟨node, -, h⟩ := bind_eq_ok.mp h
    cases h
    exact hread
  · cases h

/-- The log that a node was started over reads as what a kill leaves of it. -/
theorem found_killed {id peers : ℕ} {device : RandomDevice} {disk : Disk} {data : Bytes}
    (hstart : start F id peers device disk = .ok (n₀, data)) (hrun : Run F n₀ ts n) :
    found F n.killed = found F { disk with snapFiles := n.snapFiles } := by
  obtain ⟨hs, ents, hread⟩ := start_wal hstart
  have hkill : n.wal.file.kill = n₀.wal.file.content := run_content hrun
  have hleft := WAL.readAll_left hread
    { index := (loadedSnapshot F { disk with snapFiles := n.snapFiles }).metadata.index
      term := (loadedSnapshot F { disk with snapFiles := n.snapFiles }).metadata.term }
  unfold found killed openedWAL
  rw [hkill]
  exact hleft

end RaftNode

/-! ## Runs until a kill -/

section Runs

variable {F : Formats} {id peers : ℕ} {device : RandomDevice} {disk : Disk} {n₀ n : RaftNode} {data : Bytes}
  {ts : List (Turn RaftNode RaftNodeEvent)}

/-- After a kill, the files keep the promises of a run if and only if the write-ahead log has kept them
from before the start. -/
theorem promises_kept_iff (hstart : RaftNode.start F id peers device disk = .ok (n₀, data))
    (hrun : RaftNode.Run F n₀ ts n) :
    RaftNode.PromisesKept F n.killed ts ↔
      RaftNode.PromisesKept F { disk with snapFiles := n.snapFiles } ts := by
  have hfound := RaftNode.found_killed hstart hrun
  have hkept : ∀ l m, RaftNode.Kept F n.killed l m ↔
      RaftNode.Kept F { disk with snapFiles := n.snapFiles } l m := by
    intro l m
    constructor
    · rintro ⟨hvote, hack⟩
      rw [hfound] at hvote hack
      exact ⟨hvote, hack⟩
    · rintro ⟨hvote, hack⟩
      rw [← hfound] at hvote hack
      exact ⟨hvote, hack⟩
  exact forall₂_congr fun t _ => forall₂_congr fun m _ => hkept _ m

/-- What a follower of the second node promises. -/
theorem promises_kept_iff_followsLeader : Outcome.Returns firstStart fun p =>
    let r := runsThrough p.1 followsLeader
    (RaftNode.PromisesKept msgpackFormats r.2.killed r.1 ↔
      RaftNode.PromisesKept msgpackFormats { snapFiles := r.2.snapFiles } r.1) := by
  have hreturns : Outcome.Returns firstStart fun _ => True := by decide +kernel
  obtain ⟨p, hp, -⟩ := hreturns
  exact ⟨p, hp, promises_kept_iff hp (Trace.of_run _ _ _)⟩

/-- The second node asks for a vote in term 2. -/
def votesForSecond : List RaftNodeEvent :=
  [.pull, .process { type := .msgVote, toId := 1, fromId := 2, term := 2, index := 3, logTerm := 1 }, .pull]

/-- A vote that was granted is not found after a kill. -/
theorem vote_lost : ¬∀ (F : Formats) (id peers : ℕ) (device : RandomDevice) (disk : Disk) (n₀ n : RaftNode)
    (data : Bytes) (ts : List (Turn RaftNode RaftNodeEvent)),
      RaftNode.start F id peers device disk = .ok (n₀, data) → RaftNode.Run F n₀ ts n →
        RaftNode.PromisesKept F n.killed ts := by
  intro hall
  have hlost : Outcome.Returns firstStart fun p =>
      let r := runsThrough p.1 votesForSecond
      (∃ t ∈ r.1, ∃ m ∈ RaftNode.sent t, m.GrantsVote ∧ m.toId = 2) ∧
        Outcome.Returns (RaftNode.found msgpackFormats r.2.killed) fun p => p.1 = {} := by
    decide +kernel
  obtain ⟨p, hp, ⟨t, ht, m, hm, hgrants, hto⟩, found, hfound, hempty⟩ := hlost
  have hkept := hall _ _ _ _ _ _ _ _ _ hp (Trace.of_run _ _ _) t ht m hm
  obtain ⟨found', hfound', hvote⟩ := hkept.vote hgrants
  cases hfound.symm.trans hfound'
  rw [hempty] at hvote
  obtain hlt | ⟨-, heq⟩ := hvote
  · exact Nat.not_lt_zero _ hlt
  · rw [hto] at heq
    cases heq

end Runs

end RaftCpp
