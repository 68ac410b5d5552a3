import RaftCpp.Raft.Bounds
import RaftCpp.Replication.Guarantees

/-!
# The answers to appends

In a cluster, the answers to appends that accept are for entries that the leader has. A rejection that was
overtaken by such an answer can mislead the leader all the same.
-/

namespace RaftCpp

open Consensus

variable {S : Setup} {c₀ c : Cluster}

/-- Without pre-votes, every answer to an append that was sent in the term of a leader is for entries that
the leader has, if it accepts. -/
theorem answers_held (hfresh : c₀.Fresh S) (hpre : S.NoPreVote) (hrun : Cluster.Run S Event.Any c₀ c)
    {i : ℕ} (hi : i ∈ S.members) (hl : (c.nodes i).raft.state = .leader) {m : Message} (hm : m ∈ c.net)
    (htype : m.type = .msgAppResp) (hterm : m.term = (c.nodes i).raft.term) : (c.nodes i).raft.Holds m := by
  obtain ⟨G, s, -, -, hs, -⟩ := hfresh.sim hpre hrun Relation.ReflTransGen.refl
  have hleads : Leads G s (c.nodes i).raft.id (c.nodes i).raft := ⟨hs.sim hi, rfl, hl⟩
  have hok := hs.net m hm
  unfold MessageOK at hok
  rw [htype] at hok
  intro hreject
  have hlen : s.ack m.fromId m.term ≤ (c.nodes i).raft.raftLog.toList.length := by
    rw [hterm]
    exact hs.inv.acks.ack_le_length hleads.leaderLog.1
  calc m.index ≤ s.ack m.fromId m.term := hok.2 hreject
    _ ≤ (c.nodes i).raft.raftLog.toList.length := hlen
    _ = (c.nodes i).raft.raftLog.lastIndex := (hs.node i hi).uncompacted.lastIndex_eq.symm

/-- The first of three nodes has the entries that the third one acknowledges. -/
theorem answers_held_trio : trioCommitted.net.getD 5 {} ∈ trioCommitted.net ∧
    (trioCommitted.nodes 1).raft.Holds (trioCommitted.net.getD 5 {}) := by
  have hmem : trioCommitted.net.getD 5 {} ∈ trioCommitted.net := by decide +kernel
  exact ⟨hmem, answers_held (trio_fresh false) trio_noPreVote trioCommitted_run (by decide)
    (by decide +kernel) hmem (by decide +kernel) (by decide +kernel)⟩

/-- An entry is proposed to a node. -/
def proposeAt (i : ℕ) (_ : Cluster) : Event := .input i { type := .msgProp, fromId := i, entries := [{}] }

/-- A node is told that another one cannot be reached. -/
def unreachableAt (i y : ℕ) (_ : Cluster) : Event := .input i { type := .msgUnreachable, fromId := y }

/-- The first of three nodes leads and sends two entries to the third, which come in the wrong order: the
third one rejects the second entry and then takes the first. The leader hears of this, probes the third one
again because it is said to be unreachable, and hears of the rejection last. -/
def trioOvertaken : Cluster :=
  (trio false).fresh.after (trio false) Event.Any
    [campaignAt 1, deliverAt 0, deliverAt 2, deliverAt 3, deliverAt 5, proposeAt 1, proposeAt 1,
      deliverAt 8, deliverAt 7, deliverAt 10, unreachableAt 1 3, deliverAt 9]

/-- The next entry that the leader sends to the third node is one that the node is known to hold. -/
theorem progress_overtaken : ¬ ∀ (S : Setup) (c₀ c : Cluster) (i : ℕ), c₀.Fresh S → S.NoPreVote →
    Cluster.Run S Event.Any c₀ c → i ∈ S.members → (c.nodes i).raft.state = .leader →
    ∀ y p, (c.nodes i).raft.getProgress y = some p →
      p.matched < p.next ∧ p.next ≤ (c.nodes i).raft.raftLog.lastIndex + 1 := by
  intro hall
  have hrun : Cluster.Run (trio false) Event.Any (trio false).fresh trioOvertaken :=
    Cluster.run_after (by decide +kernel)
  have hprogress : ∃ p ∈ (trioOvertaken.nodes 1).raft.getProgress 3, p.matched = 2 ∧ p.next = 2 := by
    decide +kernel
  obtain ⟨p, hp, hmatched, hnext⟩ := hprogress
  have hlt := (hall (trio false) _ trioOvertaken 1 (trio_fresh false) trio_noPreVote hrun (by decide)
    (by decide +kernel) 3 p hp).1
  omega

end RaftCpp
