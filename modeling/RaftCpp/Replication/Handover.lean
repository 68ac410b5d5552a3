import RaftCpp.Replication.Cluster
import RaftCpp.Replication.Leading

/-!
# The hand-over of a snapshot

A leader that has sent a snapshot waits in the snapshot state for the follower to acknowledge its index.
`handle_snapshot` assigns that index to the request instead of the answer, so the answer acknowledges the
index zero and the leader keeps waiting.
-/

namespace RaftCpp

open Outcome

variable {l l' f f' : Raft} {m resp : Message}

namespace Raft

/-- `restore_node` changes the members, and whether the node is a learner. -/
theorem restoreNode_spec (nodes : List ℕ) (isLearner : Bool) (r : Raft) :
    Ensures (r.restoreNode nodes isLearner) fun r' =>
      r'.id = r.id ∧ r'.term = r.term ∧ r'.msgs = r.msgs := by
  unfold restoreNode
  refine Ensures.foldlM _ (P := fun r' => r'.id = r.id ∧ r'.term = r.term ∧ r'.msgs = r.msgs)
    (fun r' node _ hr' => ?_) r ⟨rfl, rfl, rfl⟩
  have hlearner : ∀ b : Bool, (if node = r'.id then { r' with isLearner := b } else r').id = r'.id ∧
      (if node = r'.id then { r' with isLearner := b } else r').term = r'.term ∧
      (if node = r'.id then { r' with isLearner := b } else r').msgs = r'.msgs := fun b => by
    split <;> exact ⟨rfl, rfl, rfl⟩
  refine Ensures.bind (P := fun r'' => r''.id = r'.id ∧ r''.term = r'.term ∧ r''.msgs = r'.msgs) ?_ ?_
  · unfold setProgress
    refine Ensures.ite (fun _ => Ensures.ok (hlearner _)) fun _ => ?_
    exact Ensures.ite (fun _ => Ensures.error) fun _ => Ensures.ok (hlearner _)
  · rintro r'' ⟨hid, hterm, hmsgs⟩
    refine Ensures.bind (P := fun _ => True) (fun _ _ => trivial) fun _ _ => Ensures.pure ?_
    exact ⟨hid.trans hr'.1, hterm.trans hr'.2.1, hmsgs.trans hr'.2.2⟩

/-- `restore` sends nothing. -/
theorem restore_spec (r : Raft) (s : Snapshot) :
    Ensures (r.restore s) fun p => p.2.id = r.id ∧ p.2.term = r.term ∧ p.2.msgs = r.msgs := by
  unfold restore
  refine Ensures.ite (fun _ => Ensures.pure ⟨rfl, rfl, rfl⟩) fun _ => ?_
  refine Ensures.ite (fun _ => Ensures.bind (P := fun _ => True) (fun _ _ => trivial) fun _ _ =>
    Ensures.pure ⟨rfl, rfl, rfl⟩) fun _ => ?_
  refine Ensures.ite (fun _ => Ensures.pure ⟨rfl, rfl, rfl⟩) fun _ => ?_
  refine Ensures.bind (restoreNode_spec _ _ _) ?_
  rintro r₁ ⟨hid, hterm, hmsgs⟩
  refine Ensures.bind (restoreNode_spec _ _ _) ?_
  rintro r₂ ⟨hid', hterm', hmsgs'⟩
  exact Ensures.pure ⟨hid'.trans hid, hterm'.trans hterm, hmsgs'.trans hmsgs⟩

/-- The answer to a snapshot acknowledges the index zero. -/
theorem handleSnapshot_spec (r : Raft) (m : Message) :
    Ensures (r.handleSnapshot m) fun r' => r'.msgs = r.msgs ++
      [{ toId := m.fromId, type := .msgAppResp, fromId := r.id, term := r.term }] := by
  unfold handleSnapshot
  refine Ensures.bind (restore_spec r m.snapshot) ?_
  rintro ⟨restored, r'⟩ ⟨hid, hterm, hmsgs⟩
  refine (r'.send_spec _).ensures.mono ?_
  rintro r'' ⟨rfl, -⟩
  dsimp only at hid hterm hmsgs
  rw [hmsgs, ← hid, ← hterm]
  rfl

end Raft

/-- A leader that waits for a follower to install a snapshot, the follower, which accepts it, and the
leader after the follower's answer. -/
structure Handover (l f : Raft) (m : Message) (f' : Raft) (resp : Message) (l' : Raft) : Prop where
  /-- The one node leads. -/
  leader : l.state = .leader
  /-- The other one follows. -/
  follower : f.state = .follower
  /-- They are in the same term. -/
  term : f.term = l.term
  /-- The leader waits for the follower to install the snapshot. -/
  waiting : ∃ pr, l.getProgress f.id = some pr ∧ pr.state = .snapshot ∧
    pr.pendingSnapshot = m.snapshot.metadata.index
  /-- The message carries the snapshot. -/
  type : m.type = .msgSnap
  /-- The leader sent it. -/
  sender : m.fromId = l.id
  /-- It was sent in the term. -/
  messageTerm : m.term = l.term
  /-- The follower installs the snapshot. -/
  accepted : ∃ r, { f with electionElapsed := 0, lead := m.fromId }.restore m.snapshot = .ok (true, r)
  /-- The follower handles the message. -/
  handled : ∃ status, f.step m = .ok (status, f')
  /-- The follower sends an answer. -/
  answer : f'.msgs = f.msgs ++ [resp]
  /-- The leader handles the answer. -/
  answered : ∃ status, l.step resp = .ok (status, l')

/-- The follower is known to hold the snapshot, and the leader does not wait for it any more. -/
def HandedOver (l : Raft) (id index : ℕ) : Prop :=
  ∃ pr, l.getProgress id = some pr ∧ index ≤ pr.matched ∧ pr.state ≠ .snapshot

/-- The follower acknowledges the index zero. -/
theorem Handover.answer_eq (h : Handover l f m f' resp l') :
    resp = { toId := l.id, type := .msgAppResp, fromId := f.id, term := l.term } := by
  obtain ⟨status, hstep⟩ := h.handled
  have hterm : m.term = f.term := h.messageTerm.trans h.term.symm
  have hbody : f.step m = f.stepBody m := by
    unfold Raft.step
    rw [hterm, if_neg (Nat.lt_irrefl _), if_neg (Nat.lt_irrefl _), ite_self]
  have hspec : Ensures (f.stepBody m) fun p => p.2.msgs = f.msgs ++
      [{ toId := m.fromId, type := .msgAppResp, fromId := f.id, term := f.term }] := by
    unfold Raft.stepBody
    rw [h.type]
    dsimp only
    unfold Raft.stepRole
    rw [h.follower]
    dsimp only
    unfold Raft.stepFollower
    rw [h.type]
    dsimp only
    exact Ensures.bind (Raft.handleSnapshot_spec _ m) fun r hr => Ensures.pure hr
  have hmsgs : f'.msgs = _ := hspec _ (hbody.symm.trans hstep)
  rw [h.answer] at hmsgs
  rw [← h.sender, ← h.term]
  exact List.singleton_injective (List.append_cancel_left hmsgs)

/-! ## Two nodes -/

/-- A cluster of two voters. -/
def pair : Setup where
  voters := [1, 2]
  bootstrap := .config []
  config _ :=
    { id := 0, electionTick := 10, heartbeatTick := 1, maxSizePerMsg := 1024, maxInflightMsgs := 8 }

/-- The storage of a node that has compacted its log into a snapshot of index five. -/
def compactedStorage : MemoryStorage where
  hardState := { term := 1, vote := 1, commit := 5 }
  snapshot :=
    { data := [1], metadata := { confState := { nodes := [1, 2] }, index := 5, term := 1 } }
  entries := [{ term := 1, index := 5 }]

/-- The first node is new; the second one has restarted from the compacted storage. -/
def pairStart : Cluster where
  nodes i :=
    match i, RawNode.restartNode { pair.config 2 with id := 2, storage := compactedStorage } with
    | 2, .ok n => n
    | _, _ => pair.fresh.nodes i

/-- The second node was elected, the first one refused its append, and was sent the snapshot. -/
def pairWaiting : Cluster :=
  pairStart.after pair (fun _ _ => True)
    [campaignAt 2, deliverAt 0, deliverAt 1, deliverAt 2, deliverAt 3]

/-- The message that carries the snapshot. -/
def pairSnapshot : Message := pairWaiting.net.getD 4 {}

/-- The node after a message, if it handles the message. -/
def Raft.afterStep (r : Raft) (m : Message) : Raft :=
  match r.step m with
  | .ok (_, r') => r'
  | .error _ => r

/-- A message that the node handles takes it there. -/
theorem Raft.afterStep_spec {r : Raft} {m : Message} (h : (r.step m).toBool = true) :
    ∃ status, r.step m = .ok (status, r.afterStep m) := by
  unfold afterStep
  cases hx : r.step m with
  | ok p => exact ⟨p.1, rfl⟩
  | error e =>
    rw [hx] at h
    cases h

/-- The first node after it installed the snapshot. -/
def pairInstalled : Raft := (pairWaiting.nodes 1).raft.afterStep pairSnapshot

/-- The answer of the first node. -/
def pairAnswer : Message := { type := .msgAppResp, toId := 2, fromId := 1, term := 2 }

/-- The second node after the answer. -/
def pairAnswered : Raft := (pairWaiting.nodes 2).raft.afterStep pairAnswer

/-- The second node waits for the first one to install the snapshot, which it does. -/
theorem pair_handover : Handover (pairWaiting.nodes 2).raft (pairWaiting.nodes 1).raft pairSnapshot
    pairInstalled pairAnswer pairAnswered where
  leader := by decide +kernel
  follower := by decide +kernel
  term := by decide +kernel
  waiting := by
    have h : ((pairWaiting.nodes 2).raft.getProgress (pairWaiting.nodes 1).raft.id).map
        (fun pr => (pr.state, pr.pendingSnapshot)) =
          some (.snapshot, pairSnapshot.snapshot.metadata.index) := by decide +kernel
    obtain ⟨pr, hpr, heq⟩ := Option.map_eq_some_iff.mp h
    exact ⟨pr, hpr, congrArg Prod.fst heq, congrArg Prod.snd heq⟩
  type := by decide +kernel
  sender := by decide +kernel
  messageTerm := by decide +kernel
  accepted := by
    have h : (({ (pairWaiting.nodes 1).raft with
        electionElapsed := 0, lead := pairSnapshot.fromId }.restore
          pairSnapshot.snapshot).toOption.map Prod.fst) = some true := by decide +kernel
    obtain ⟨⟨b, r⟩, hr, rfl⟩ := Option.map_eq_some_iff.mp h
    refine ⟨r, ?_⟩
    generalize Raft.restore _ _ = x at hr ⊢
    cases x with
    | ok p =>
      cases hr
      rfl
    | error e => cases hr
  handled := Raft.afterStep_spec (by decide +kernel)
  answer := by decide +kernel
  answered := Raft.afterStep_spec (by decide +kernel)

/-- A hand-over is to end when the answer is handled; the one of the two nodes does not. -/
theorem handover_fails : ¬ ∀ (l f : Raft) (m : Message) (f' : Raft) (resp : Message) (l' : Raft),
    Handover l f m f' resp l' → HandedOver l' f.id m.snapshot.metadata.index := by
  intro h
  obtain ⟨pr, hpr, -, hne⟩ := h _ _ _ _ _ _ pair_handover
  have hstate : (pairAnswered.getProgress (pairWaiting.nodes 1).raft.id).map (·.state) =
      some .snapshot := by decide +kernel
  rw [hpr] at hstate
  exact hne (Option.some.inj hstate)

/-! ## Every hand-over -/

/-- No snapshot is ever handed over: after the answer the leader still waits. -/
theorem handover_never_ends (h : Handover l f m f' resp l') :
    ¬ HandedOver l' f.id m.snapshot.metadata.index := by
  obtain ⟨pr, hpr, hstate, -⟩ := h.waiting
  obtain ⟨status, hstep⟩ := h.answered
  rw [h.answer_eq] at hstep
  have hspec : Ensures (l.step { toId := l.id, type := .msgAppResp, fromId := f.id, term := l.term })
      fun p => ∃ pr', p.2 = l.putProgress f.id pr' ∧ pr'.state = .snapshot := by
    unfold Raft.step
    dsimp only
    rw [if_neg (Nat.lt_irrefl _), if_neg (Nat.lt_irrefl _), ite_self]
    unfold Raft.stepBody
    dsimp only
    unfold Raft.stepRole
    rw [h.leader]
    dsimp only
    unfold Raft.stepLeader Raft.stepLeaderPeer
    dsimp only
    rw [hpr]
    dsimp only
    unfold Raft.stepLeaderAppResp
    dsimp only
    -- The index zero is news to no leader.
    rw [if_neg Bool.false_ne_true, if_neg (by simp [Progress.maybeUpdate])]
    refine Ensures.pure ⟨_, rfl, ?_⟩
    rw [(Progress.maybeUpdate_spec _ 0).2.2.1]
    exact hstate
  obtain ⟨pr', hl', hstate'⟩ := hspec _ hstep
  rintro ⟨pr'', hpr'', -, hne⟩
  dsimp only at hl'
  rw [hl', Raft.getProgress_putProgress_self hpr] at hpr''
  cases hpr''
  exact hne hstate'

/-- The second of two nodes waits on. -/
theorem handover_never_ends_pair : ¬ HandedOver pairAnswered (pairWaiting.nodes 1).raft.id
    pairSnapshot.snapshot.metadata.index := handover_never_ends pair_handover

end RaftCpp
