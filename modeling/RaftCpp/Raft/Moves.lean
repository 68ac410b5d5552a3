import Mathlib.Data.Finset.Dedup
import Mathlib.Logic.Relation
import RaftCpp.Library.Outcome
import RaftCpp.Raft.Node

/-!
# What the handlers of a node do

The handlers change the state of a node in a few ways: they send a message, enter a term or a role, count
an answer, grant a vote, write to the log, or change the membership. `Move` lists these ways, with what
each of them requires, and every handler is shown to be a sequence of moves. What holds of a node across
its handlers then only has to be shown of the moves.

The progress of the peers, the pending reads, the timers, and the limits are not part of this.
-/

namespace RaftCpp

open Outcome

/-- What makes a node act. -/
inductive Cause
  /-- A message that is stepped into it. -/
  | step (m : Message)
  /-- The clock. -/
  | tick
  /-- A change of the membership. -/
  | confChange
deriving DecidableEq, Repr

namespace Cause

/-- The causes on which a node starts a campaign of its own. -/
def AsksToCampaign (c : Cause) : Prop := c = .tick ∨ ∃ m, c = .step m ∧ m.type = .msgHup

/-- The causes on which a node counts the answers to a campaign. -/
def CountsAnswers (c : Cause) : Prop :=
  c.AsksToCampaign ∨ ∃ m, c = .step m ∧ (m.type = .msgVoteResp ∨ m.type = .msgPreVoteResp)

end Cause

/-- The part of a node's state that the moves are about. -/
structure Outline where
  /-- The identity. -/
  id : ℕ
  /-- The term. -/
  term : ℕ
  /-- The vote. -/
  vote : ℕ
  /-- The leader. -/
  lead : ℕ
  /-- The role. -/
  state : RaftState
  /-- Whether the node is a learner. -/
  isLearner : Bool
  /-- The log. -/
  raftLog : RaftLog
  /-- The answers to the campaign. -/
  votes : AList (fun _ : ℕ => Bool)
  /-- The messages to send. -/
  msgs : List Message
  /-- The reads that are ready to be served. -/
  readStates : List ReadState
  /-- The voters. -/
  voters : Finset ℕ
  /-- The number of voters that decide. -/
  quorum : ℕ
  /-- Whether the node polls before an election. -/
  preVote : Bool
  /-- Whether the node checks its quorum. -/
  checkQuorum : Bool

namespace Raft

/-- The part of the state that the moves are about. -/
def outline (r : Raft) : Outline where
  id := r.id
  term := r.term
  vote := r.vote
  lead := r.lead
  state := r.state
  isLearner := r.isLearner
  raftLog := r.raftLog
  votes := r.votes
  msgs := r.msgs
  readStates := r.readStates
  voters := r.prs.keys.toFinset
  quorum := r.quorum
  preVote := r.preVote
  checkQuorum := r.checkQuorum

/-- The message types that only a leader sends. -/
def isLeaderType (t : MessageType) : Bool :=
  t == .msgApp || t == .msgSnap || t == .msgHeartbeat || t == .msgTimeoutNow

/-- Whether a node takes a message of the leader for one of its own term without looking: a candidate
follows the sender of such a message, and a message without a term passes the checks of `step`. -/
def trusts (r : Raft) (m : Message) : Bool :=
  (r.state == .candidate || r.state == .preCandidate) && m.term == 0 &&
    (m.type == .msgApp || m.type == .msgHeartbeat || m.type == .msgSnap)

/-- Whether a node campaigns on a request to campaign: no configuration change is still to be
applied. -/
def MayHup (r : Raft) : Prop :=
  ∃ es, r.raftLog.slice (r.raftLog.applied + 1) (r.raftLog.committed + 1) RaftLog.unlimited =
      .ok (.ok, es) ∧
    ¬(numOfPendingConf es > 0 ∧ r.raftLog.committed > r.raftLog.applied)

end Raft

/-- What the messages that a node sends say, before `send` fills in the sender and the term. -/
def SendOK (c : Cause) (r : Raft) (x : Message) : Prop :=
  match x.type with
  | .msgApp => (r.state = .leader ∨ c = .confChange) ∧ ∃ next maxSize,
      r.raftLog.entries next maxSize = .ok (.ok, x.entries) ∧ x.index = sub64 next 1 ∧
        x.commit = r.raftLog.committed
  | .msgSnap => (r.state = .leader ∨ c = .confChange) ∧ x.snapshot = r.raftLog.snapshot ∧
      x.snapshot.isEmpty = false
  | .msgHeartbeat | .msgTimeoutNow => r.state = .leader ∨ c = .confChange
  | .msgProp => ∃ m, c = .step m ∧ m.type = .msgProp ∧ x.entries = m.entries
  | .msgVote => x.term = r.term ∧ r.state = .candidate
  | .msgPreVote => x.term = r.term + 1 ∧ r.state = .preCandidate
  | .msgVoteResp => x.reject = false → ∃ m, c = .step m ∧ m.type = .msgVote ∧ x.toId = m.fromId ∧
      x.term = m.term ∧ r.isLearner = false
  | .msgPreVoteResp => x.reject = false → ∃ m, c = .step m ∧ m.type = .msgPreVote ∧
      x.toId = m.fromId ∧ x.term = m.term ∧ r.isLearner = false
  | .msgHeartbeatResp => x.context = []
  | _ => True

/-- The ways to change the log. -/
inductive LogMove (c : Cause) (r : Raft) : RaftLog → Prop
  /-- The commit index is raised. -/
  | commit {l : RaftLog} (k : ℕ) (h : r.raftLog.commitTo k = .ok l) : LogMove c r l
  /-- A leader appends the entries of a proposal, some of which may have become empty entries. -/
  | propose {l : RaftLog} (m : Message) (es : List Entry) (hc : c = .step m)
      (htype : m.type = .msgProp) (hlead : r.state = .leader)
      (hes : ∀ e ∈ es, e ∈ m.entries ∨ e = {})
      (h : r.raftLog.append (Raft.stampEntries r.term (r.raftLog.lastIndex + 1) es) = .ok l) :
      LogMove c r l
  /-- A new leader appends an empty entry. -/
  | elected {l : RaftLog} (hlead : r.state = .leader)
      (h : r.raftLog.append (Raft.stampEntries r.term (r.raftLog.lastIndex + 1) [{}]) = .ok l) :
      LogMove c r l
  /-- The entries of an append message are written. -/
  | write {l : RaftLog} (m : Message) (last : Option ℕ) (hc : c = .step m) (htype : m.type = .msgApp)
      (hindex : r.raftLog.committed ≤ m.index)
      (h : r.raftLog.maybeAppend m.index m.logTerm m.commit m.entries = .ok (last, l)) :
      LogMove c r l
  /-- A snapshot takes the place of the log. -/
  | restore (m : Message) (hc : c = .step m) (htype : m.type = .msgSnap)
      (hindex : r.raftLog.committed < m.snapshot.metadata.index)
      (hterm : r.raftLog.matchTerm m.snapshot.metadata.index m.snapshot.metadata.term = false) :
      LogMove c r (r.raftLog.restore m.snapshot)

/-- The reasons to enter a term as a candidate. -/
inductive Campaigns (c : Cause) (r : Raft) : Prop
  /-- A request to campaign, without a poll before it. -/
  | hup (hc : c.AsksToCampaign) (h : r.MayHup) (hpre : r.preVote = false)
  /-- A request of the leader to take over. -/
  | timeoutNow (m : Message) (hc : c = .step m) (htype : m.type = .msgTimeoutNow)
      (hstate : r.state = .follower)
  /-- A poll that the node has just won. -/
  | polled (hc : c.CountsAnswers) (hstate : r.state = .preCandidate)
      (hcount : r.quorum = r.votes.entries.countP (·.2))

/-- One change of a node's state. -/
inductive Move (c : Cause) : Raft → Raft → Prop
  /-- Something else changes. -/
  | other {r r' : Raft} (h : r'.outline = r.outline) : Move c r r'
  /-- A message is sent. -/
  | send {r r' : Raft} (x : Message) (hx : SendOK c r x) (h : r.send x = .ok r') : Move c r r'
  /-- A read is ready to be served. -/
  | read {r : Raft} (rs : ReadState) : Move c r { r with readStates := r.readStates ++ [rs] }
  /-- The node follows: in its own term, or in the term of a message that is higher or that it
  trusts. -/
  | follow {r : Raft} (t lead : ℕ)
      (h : t = r.term ∨ ∃ m, c = .step m ∧ t = m.term ∧ (r.term < m.term ∨ r.trusts m = true)) :
      Move c r (r.becomeFollower t lead)
  /-- A follower hears from the leader. -/
  | heard {r : Raft} (m : Message) (hc : c = .step m)
      (htype : m.type = .msgApp ∨ m.type = .msgHeartbeat ∨ m.type = .msgSnap)
      (hstate : r.state = .follower) :
      Move c r { r with electionElapsed := 0, lead := m.fromId }
  /-- The node starts a poll. -/
  | poll {r : Raft} (hc : c.AsksToCampaign) (hstate : r.state ≠ .leader) (h : r.MayHup)
      (hpre : r.preVote = true) :
      Move c r { r with votes := ∅, lead := 0, state := .preCandidate }
  /-- The node enters the next term as a candidate. -/
  | campaign {r : Raft} (hstate : r.state ≠ .leader) (h : Campaigns c r) :
      Move c r { r.reset (r.term + 1) with vote := r.id, state := .candidate }
  /-- A campaigning node counts its own vote. -/
  | voteSelf {r : Raft} (hstate : r.state = .candidate ∨ r.state = .preCandidate) :
      Move c r (r.poll r.id true).2
  /-- A campaigning node counts an answer. -/
  | answer {r : Raft} (m : Message) (hc : c = .step m)
      (htype : m.type = .msgVoteResp ∨ m.type = .msgPreVoteResp)
      (hterm : m.term = 0 ∨ m.term = r.term ∨ (m.type = .msgPreVoteResp ∧ r.term < m.term))
      (hstate : r.state = .candidate ∨ r.state = .preCandidate) :
      Move c r (r.poll m.fromId (!m.reject)).2
  /-- A candidate with the votes of a quorum takes the lead. -/
  | lead {r : Raft} (hstate : r.state = .candidate)
      (hcount : r.quorum = r.votes.entries.countP (·.2)) : Move c r r.takeLead
  /-- The node grants its vote. -/
  | grant {r : Raft} (m : Message) (hc : c = .step m) (htype : m.type = .msgVote)
      (hvote : r.canVote m = true) : Move c r { r with electionElapsed := 0, vote := m.fromId }
  /-- The log changes. -/
  | log {r : Raft} {l : RaftLog} (h : LogMove c r l) : Move c r { r with raftLog := l }
  /-- The membership changes, by a snapshot that was installed or by the application. -/
  | members {r r' : Raft} (hc : c = .confChange ∨ ∃ m, c = .step m ∧ m.type = .msgSnap)
      (h : ({ r'.outline with voters := ∅, quorum := 0, isLearner := false } : Outline) =
        { r.outline with voters := ∅, quorum := 0, isLearner := false }) : Move c r r'

/-- A sequence of moves. -/
abbrev Course (c : Cause) : Raft → Raft → Prop := Relation.ReflTransGen (Move c)

variable {c : Cause} {r r' r'' : Raft}

/-- A single move. -/
theorem Move.moves (h : Move c r r') : Course c r r' := Relation.ReflTransGen.single h

/-- A sequence of moves, none of which changes the role. -/
def Steady (c : Cause) : Raft → Raft → Prop :=
  Relation.ReflTransGen fun r r' => Move c r r' ∧ r'.state = r.state

/-- A single move that leaves the role alone. -/
theorem Move.steady (h : Move c r r') (hstate : r'.state = r.state) : Steady c r r' :=
  Relation.ReflTransGen.single ⟨h, hstate⟩

namespace Steady

/-- No move. -/
theorem refl (c : Cause) (r : Raft) : Steady c r r := Relation.ReflTransGen.refl

/-- Moves after moves. -/
theorem trans (h : Steady c r r') (h' : Steady c r' r'') : Steady c r r'' :=
  Relation.ReflTransGen.trans h h'

/-- Something else changes. -/
theorem other (h : r'.outline = r.outline) : Steady c r r' :=
  (Move.other h).steady (congrArg Outline.state h)

/-- The moves. -/
theorem moves (h : Steady c r r') : Course c r r' := by
  induction h with
  | refl => exact Relation.ReflTransGen.refl
  | tail _ hmove ih => exact ih.tail hmove.1

/-- The role stays. -/
theorem state (h : Steady c r r') : r'.state = r.state := by
  induction h with
  | refl => rfl
  | tail _ hmove ih => exact hmove.2.trans ih

end Steady

/-! ## Sending -/

namespace Raft

/-- What `send` does to a message. -/
def fillIn (r : Raft) (x : Message) : Message :=
  if isVoteType x.type ∨ x.type = .msgProp ∨ x.type = .msgReadIndex then { x with fromId := r.id }
  else { x with fromId := r.id, term := r.term }

/-- `send` fills in the sender and the term. -/
theorem fillIn_frame (r : Raft) (x : Message) :
    (r.fillIn x).index = x.index ∧ (r.fillIn x).reject = x.reject := by
  unfold fillIn
  split_ifs
  · exact ⟨rfl, rfl⟩
  · exact ⟨rfl, rfl⟩

/-- `send` queues the message, and changes nothing else. -/
theorem send_eq {x : Message} (h : r.send x = .ok r') :
    r' = { r with msgs := r.msgs ++ [r.fillIn x] } ∧
      (isVoteType x.type = true → x.term ≠ 0) ∧ (isVoteType x.type = false → x.term = 0) := by
  unfold send at h
  unfold fillIn
  dsimp only at h
  split_ifs at h with h1 h2 h3 h4
  · cases h
    exact ⟨by rw [if_pos (Or.inl h1)], fun _ => h2, fun h => by rw [h1] at h; cases h⟩
  · cases h
    rw [if_neg (by simp only [h1, h4.1, h4.2, Bool.false_eq_true, or_self, not_false_eq_true])]
    exact ⟨rfl, fun h => absurd h h1, fun _ => not_not.mp h3⟩
  · cases h
    have ht : x.type = .msgProp ∨ x.type = .msgReadIndex := by
      by_contra hne
      exact h4 (not_or.mp hne)
    exact ⟨by rw [if_pos (Or.inr ht)], fun h => absurd h h1, fun _ => not_not.mp h3⟩

/-- Sending a message is a move. -/
theorem steady_send {x : Message} (hx : SendOK c r x) : Ensures (r.send x) (Steady c r) := by
  intro r' h
  obtain ⟨rfl, -⟩ := send_eq h
  exact (Move.send x hx h).steady rfl

/-- Writing a progress changes the progress only. -/
theorem putProgress_eq (r : Raft) (id : ℕ) (p : Progress) :
    ∃ prs learnerPrs, r.putProgress id p = { r with prs := prs, learnerPrs := learnerPrs } := by
  unfold putProgress
  split_ifs
  · exact ⟨_, _, rfl⟩
  · exact ⟨_, _, rfl⟩
  · exact ⟨_, _, rfl⟩

/-- Writing a progress does not count as a change. -/
theorem putProgress_outline (r : Raft) (id : ℕ) (p : Progress) :
    (r.putProgress id p).outline = r.outline := by
  unfold putProgress
  split_ifs with h1 h2
  · -- The key was there, so that neither the voters nor their number change.
    have hkeys : ∀ y, y ∈ (r.prs.insert id p).keys ↔ y ∈ r.prs.keys := fun y => by
      rw [← AList.mem_keys, ← AList.mem_keys, AList.mem_insert]
      constructor
      · rintro (rfl | h)
        · exact h1
        · exact h
      · exact Or.inr
    have hset : (r.prs.insert id p).keys.toFinset = r.prs.keys.toFinset := by
      ext y
      rw [List.mem_toFinset, List.mem_toFinset, hkeys]
    have hlen : (r.prs.insert id p).keys.length = r.prs.keys.length := by
      rw [← List.toFinset_card_of_nodup (AList.keys_nodup _), hset,
        List.toFinset_card_of_nodup (AList.keys_nodup _)]
    simp only [outline, quorum, hset, hlen]
  · rfl
  · rfl

/-- A progress after a write is the written one, or it was there before. -/
theorem getProgress_putProgress {r : Raft} {y z : ℕ} {p q : Progress}
    (h : (r.putProgress y p).getProgress z = some q) :
    (z = y ∧ q = p) ∨ r.getProgress z = some q := by
  unfold putProgress at h
  unfold getProgress at h ⊢
  split_ifs at h with h1 h2
  · simp only [AList.lookup_insert_eq] at h
    split_ifs at h with hz
    · rw [Option.some_or] at h
      exact Or.inl ⟨hz, (Option.some.inj h).symm⟩
    · exact Or.inr h
  · simp only [AList.lookup_insert_eq] at h
    split_ifs at h with hz
    · have hnone : r.prs.lookup z = none := by
        rw [hz]
        exact AList.lookup_eq_none.mpr h1
      rw [hnone, Option.none_or] at h
      exact Or.inl ⟨hz, (Option.some.inj h).symm⟩
    · exact Or.inr h
  · exact Or.inr h

/-- A write through the pointer of a peer is read back. -/
theorem getProgress_putProgress_self {r : Raft} {y : ℕ} {p q : Progress}
    (h : r.getProgress y = some q) : (r.putProgress y p).getProgress y = some p := by
  unfold putProgress
  unfold getProgress at h ⊢
  split_ifs with h1 h2
  · rw [AList.lookup_insert, Option.some_or]
  · rw [AList.lookup_eq_none.mpr h1, Option.none_or, AList.lookup_insert]
  · rw [AList.lookup_eq_none.mpr h1, Option.none_or, AList.lookup_eq_none.mpr h2] at h
    cases h

/-- Writing a progress is no move. -/
theorem steady_putProgress (r : Raft) (id : ℕ) (p : Progress) : Steady c r (r.putProgress id p) :=
  Steady.other (putProgress_outline r id p)

end Raft

end RaftCpp
